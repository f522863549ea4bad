import Processor64.Translation

/-!
# Recency and contents

Of the translation buffer, an answer depends only on the contents of the slots: which are valid,
and what they map (`translate_eq_of_contents`). A question leaves the contents as they were
(`contents_translate`, `contents_resolve`) and moves stamps and counts only.

A translated address lies in the frame of a mapping that is there and grants the access, and an
aligned access lies in that frame with all its bytes (`div_pageSize_of_aligned`).
-/

namespace Processor64

def Slot.content (s : Slot) : Bool × Mapping := (s.valid, s.mapping)

namespace Tlb

variable {t u : Tlb} {a p : Word} {k : AccessKind} {c : AccessContext}

/-- What the slots hold, without their stamps. -/
def contents (t : Tlb) : List (Bool × Mapping) := t.slots.map Slot.content

theorem peek_eq_find? (t : Tlb) (a : Word) :
    t.peek a = (t.contents.find? fun s => s.1 && s.2.page == a.page).map (·.2) := by
  have h : t.peek a = (t.slots.find? (·.holds a.page)).map (·.mapping) := by
    simp [peek, find?, List.find?_eq_map_findFinIdx?_getElem, Function.comp_def]
  rw [h, contents, List.find?_map, Option.map_map]
  rfl

theorem mem_contents_of_peek {m : Mapping} (h : t.peek a = some m) :
    (true, m) ∈ t.contents ∧ m.page = a.page := by
  rw [peek_eq_find?, Option.map_eq_some_iff] at h
  obtain ⟨⟨v, n⟩, hf, rfl⟩ := h
  have hp := List.find?_some hf
  simp only [Bool.and_eq_true, beq_iff_eq] at hp
  obtain ⟨rfl, hp⟩ := hp
  exact ⟨List.mem_of_find?_eq_some hf, hp⟩

theorem mem_contents {m : Mapping} :
    (true, m) ∈ t.contents ↔ ∃ s ∈ t.slots, s.valid = true ∧ s.mapping = m := by
  simp [contents, Slot.content]

@[simp]
theorem lookup_fst (t : Tlb) (a : Word) : (t.lookup a).1 = t.peek a := by
  unfold lookup peek
  rcases t.find? a.page with _ | i <;> rfl

@[simp]
theorem contents_lookup (t : Tlb) (a : Word) : (t.lookup a).2.contents = t.contents := by
  unfold lookup
  rcases h : t.find? a.page with _ | i
  · rfl
  · simp only [contents, List.map_set]
    have hi : i.val < (t.slots.map Slot.content).length := by simp
    have hc : t.slots[i].content = (t.slots.map Slot.content)[i.val] := by simp
    show (t.slots.map Slot.content).set i t.slots[i].content = _
    rw [hc, List.set_getElem_self]

theorem translate_fst (t : Tlb) (a : Word) (k : AccessKind) (c : AccessContext) :
    (t.translate a k c).1 = if c.bypasses a then .ok a else
      match t.peek a with
      | none => .error (.unmapped a k)
      | some m => if m.grants k c then .ok (m.translate a) else .error (.denied a k) := by
  unfold translate
  split
  · rfl
  · rw [← lookup_fst]
    rcases t.lookup a with ⟨_ | m, u⟩ <;> rfl

@[simp]
theorem contents_translate (t : Tlb) (a : Word) (k : AccessKind) (c : AccessContext) :
    (t.translate a k c).2.contents = t.contents := by
  unfold translate
  split
  · rfl
  · have h := contents_lookup t a
    rcases ht : t.lookup a with ⟨_ | m, u⟩ <;> simpa [ht] using h

@[simp]
theorem contents_resolve (t : Tlb) (a : Word) (c : AccessContext) :
    (t.resolve a c).2.contents = t.contents := by
  unfold resolve
  split
  · rfl
  · have h := contents_lookup t a
    rcases ht : t.lookup a with ⟨_ | m, u⟩ <;> simpa [ht] using h

theorem resolve_fst (t : Tlb) (a : Word) (c : AccessContext) :
    (t.resolve a c).1 = if c.bypasses a then .ok a else
      match t.peek a with
      | none => .error (.unmapped a .read)
      | some m => .ok (m.translate a) := by
  unfold resolve
  split
  · rfl
  · rw [← lookup_fst]
    rcases t.lookup a with ⟨_ | m, u⟩ <;> rfl

theorem translate_eq_of_contents (h : t.contents = u.contents) :
    (t.translate a k c).1 = (u.translate a k c).1 := by
  rw [translate_fst, translate_fst, peek_eq_find?, peek_eq_find?, h]

/-- A translated address is the address itself, or in the frame of a mapping that grants the
access. -/
theorem translate_eq_ok (h : (t.translate a k c).1 = .ok p) :
    c.bypasses a = true ∧ p = a ∨
      ∃ m, (true, m) ∈ t.contents ∧ m.grants k c = true ∧ p = m.translate a := by
  rw [translate_fst] at h
  split at h
  · rename_i hb
    exact .inl ⟨hb, by simpa using h.symm⟩
  · rcases hm : t.peek a with _ | m <;> rw [hm] at h <;> simp only [reduceCtorEq] at h
    split at h
    · rename_i hg
      exact .inr ⟨m, (mem_contents_of_peek hm).1, hg, by simpa using h.symm⟩
    · simp at h

end Tlb

/-! ## Pages -/

theorem Word.toNat_offset (a : Word) : a.offset.toNat = a.toNat % pageSize := by
  simp [Word.offset, pageSize]

theorem Page.toNat_withOffset (p : Page) (o : PageOffset) :
    (p.withOffset o).toNat = p.toNat * pageSize + o.toNat := by
  rw [Page.withOffset, toNat_append_eq_add, Nat.shiftLeft_eq]
  rfl

namespace Mapping

theorem toNat_translate (m : Mapping) (a : Word) :
    (m.translate a).toNat = m.frame.toNat * pageSize + a.toNat % pageSize := by
  rw [translate, Page.toNat_withOffset, Word.toNat_offset]

/-- The bytes of an aligned access all lie in the frame of its mapping. -/
theorem div_pageSize_of_aligned (m : Mapping) {a : Word} {w : Width} (ha : w.isAligned a = true)
    {b : Nat} (hlo : (m.translate a).toNat ≤ b) (hhi : b < (m.translate a).toNat + w.bytes) :
    b / pageSize = m.frame.toNat := by
  rw [toNat_translate] at hlo hhi
  have hw : a.toNat % pageSize + w.bytes ≤ pageSize := by
    cases w <;> simp only [Width.isAligned, Width.bytes, beq_iff_eq, pageSize] at ha ⊢ <;> omega
  simp only [pageSize] at hlo hhi hw ⊢
  omega

end Mapping

end Processor64
