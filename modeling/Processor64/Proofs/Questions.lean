import Processor64.Proofs.Recency

/-!
# Questions about an address

The translation buffer is asked about an address in three ways: to translate it for an access, to
resolve it whatever the rights, and to probe whether an access would be translated. The answers to
the three go together in one of four ways (`Tlb.Answers`), from which all that they have in common
is read off (`Tlb.Agrees`).

A question moves recency and counts and leaves the contents, on which alone an answer depends
(`ask_eq_of_contents`). So no answer is changed by the questions that came before, however many
they were (`questions_agree`).
-/

namespace Processor64

/-! ## The privileged mode -/

@[simp]
theorem StatusWord.privileged_withModes (p : StatusWord) :
    (p.withModes 1#3 true).privileged = true := by
  simp [privileged, withModes]

@[simp]
theorem StatusWord.translates_withModes (p : StatusWord) :
    (p.withModes 1#3 true).translates = p.translates := by
  simp [translates, withModes]

namespace AccessContext

/-- The same context in privileged mode. -/
def elevated (c : AccessContext) : AccessContext :=
  { c with status := c.status.withModes 1#3 true }

@[simp]
theorem bypasses_elevated (c : AccessContext) (a : Word) :
    c.elevated.bypasses a = c.bypasses a := by
  simp [bypasses, elevated]

end AccessContext

/-- Privileged mode is judged by the right of the access alone, so it is granted all that user mode
is. -/
theorem Mapping.grants_elevated {m : Mapping} {k : AccessKind} {c : AccessContext}
    (h : m.grants k c = true) : m.grants k c.elevated = true := by
  rw [grants, Bool.and_eq_true] at h
  simp [grants, AccessContext.elevated, h.1]

namespace Tlb

variable {t u : Tlb} {a p : Word} {k : AccessKind} {c : AccessContext}

/-! ## The three answers -/

/-- How the three questions about an address are answered together. -/
inductive Answers (t : Tlb) (a : Word) (k : AccessKind) (c : AccessContext) : Prop where
  | bypassed (translate : (t.translate a k c).1 = .ok a) (resolve : (t.resolve a c).1 = .ok a)
    (probe : t.probe a k c = true)
  | unmapped (translate : (t.translate a k c).1 = .error (.unmapped a k))
    (resolve : (t.resolve a c).1 = .error (.unmapped a .read)) (probe : t.probe a k c = false)
  | granted (m : Mapping) (translate : (t.translate a k c).1 = .ok (m.translate a))
    (resolve : (t.resolve a c).1 = .ok (m.translate a)) (probe : t.probe a k c = true)
  | denied (m : Mapping) (translate : (t.translate a k c).1 = .error (.denied a k))
    (resolve : (t.resolve a c).1 = .ok (m.translate a)) (probe : t.probe a k c = false)

theorem answers (t : Tlb) (a : Word) (k : AccessKind) (c : AccessContext) :
    t.Answers a k c := by
  have htranslate := t.translate_fst a k c
  have hresolve := t.resolve_fst a c
  have hprobe : t.probe a k c = (c.bypasses a || (t.peek a).any (·.grants k c)) := rfl
  rcases hb : c.bypasses a with _ | _ <;> rw [hb] at htranslate hresolve hprobe
  · rcases hm : t.peek a with _ | m <;> rw [hm] at htranslate hresolve hprobe
    · exact .unmapped htranslate hresolve hprobe
    · rcases hg : m.grants k c with _ | _
      · exact .denied m (by simpa [hg] using htranslate) hresolve (by simpa [hg] using hprobe)
      · exact .granted m (by simpa [hg] using htranslate) hresolve (by simpa [hg] using hprobe)
  · exact .bypassed htranslate hresolve hprobe

theorem probe_iff_translate : t.probe a k c = true ↔ ∃ p, (t.translate a k c).1 = .ok p := by
  rcases t.answers a k c with ⟨ht, -, hp⟩ | ⟨ht, -, hp⟩ | ⟨m, ht, -, hp⟩ | ⟨m, ht, -, hp⟩ <;>
    simp [ht, hp]

theorem translate_bypassed (h : c.bypasses a = true) : t.translate a k c = (.ok a, t) :=
  if_pos h

theorem resolve_bypassed (h : c.bypasses a = true) : t.resolve a c = (.ok a, t) :=
  if_pos h

/-- A translation that succeeds succeeds alike in privileged mode. -/
theorem translate_elevated (h : t.translate a k c = (.ok p, u)) :
    t.translate a k c.elevated = (.ok p, u) := by
  rcases hb : c.bypasses a with _ | _
  · unfold translate at h ⊢
    rw [c.bypasses_elevated, hb, if_neg Bool.false_ne_true]
    rw [hb, if_neg Bool.false_ne_true] at h
    rcases hl : t.lookup a with ⟨_ | m, v⟩ <;> rw [hl] at h
    · cases h
    · dsimp only at h ⊢
      split at h
      · rename_i hg
        rw [if_pos (Mapping.grants_elevated hg)]
        exact h
      · cases h
  · rw [translate_bypassed hb] at h
    rw [translate_bypassed (c.bypasses_elevated a ▸ hb), h]

theorem resolve_elevated (t : Tlb) (a : Word) (c : AccessContext) :
    t.resolve a c.elevated = t.resolve a c := by
  simp only [resolve, c.bypasses_elevated]

/-- What the three questions about an address have in common, and what they leave. -/
structure Agrees (t : Tlb) (a : Word) (k : AccessKind) (c : AccessContext) : Prop where
  probe : t.probe a k c = true ↔ ∃ p, (t.translate a k c).1 = .ok p
  resolve : ∀ p, (t.translate a k c).1 = .ok p → (t.resolve a c).1 = .ok p
  unmapped : (∃ e, (t.resolve a c).1 = .error e) ↔
    ∃ e, (t.translate a k c).1 = .error e ∧ e.code = .tlbAccess
  denied : ∀ e, (t.translate a k c).1 = .error e → e.code = .protection →
    ∃ p, (t.resolve a c).1 = .ok p
  contents : (t.translate a k c).2.contents = t.contents ∧
    (t.resolve a c).2.contents = t.contents
  untouched : a.inIoWindow = true ∨ c.status.translates = false →
    (t.translate a k c).2 = t ∧ (t.resolve a c).2 = t
  elevated : ∀ p u, t.translate a k c = (.ok p, u) → t.translate a k c.elevated = (.ok p, u)
  resolve_elevated : t.resolve a c.elevated = t.resolve a c

theorem agrees (t : Tlb) (a : Word) (k : AccessKind) (c : AccessContext) : t.Agrees a k c where
  probe := probe_iff_translate
  resolve p h := by
    rcases t.answers a k c with ⟨ht, hr, -⟩ | ⟨ht, -, -⟩ | ⟨m, ht, hr, -⟩ | ⟨m, ht, -, -⟩
    · exact hr.trans (ht.symm.trans h)
    · cases ht.symm.trans h
    · exact hr.trans (ht.symm.trans h)
    · cases ht.symm.trans h
  unmapped := by
    rcases t.answers a k c with ⟨ht, hr, -⟩ | ⟨ht, hr, -⟩ | ⟨m, ht, hr, -⟩ | ⟨m, ht, hr, -⟩ <;>
      simp [ht, hr, Trap.unmapped, Trap.denied, Trap.atAddress]
  denied e h hc := by
    rcases t.answers a k c with ⟨ht, -, -⟩ | ⟨ht, -, -⟩ | ⟨m, ht, -, -⟩ | ⟨m, -, hr, -⟩
    · cases ht.symm.trans h
    · cases ht.symm.trans h
      cases hc
    · cases ht.symm.trans h
    · exact ⟨_, hr⟩
  contents := ⟨t.contents_translate a k c, t.contents_resolve a c⟩
  untouched h := by
    have hb : c.bypasses a = true := by
      rcases h with h | h <;> simp [AccessContext.bypasses, h]
    rw [translate_bypassed hb, resolve_bypassed hb]
    exact ⟨rfl, rfl⟩
  elevated _ _ h := translate_elevated h
  resolve_elevated := Tlb.resolve_elevated t a c

/-! ## Questions one after another -/

/-- What a host can ask of a program's view of memory. -/
inductive Question where
  | translate (a : Word) (k : AccessKind) (c : AccessContext)
  | resolve (a : Word) (c : AccessContext)
  | probe (a : Word) (k : AccessKind) (c : AccessContext)

inductive Response where
  | place (r : Except Trap Word)
  | granted (yes : Bool)

def ask (t : Tlb) : Question → Response × Tlb
  | .translate a k c => (.place (t.translate a k c).1, (t.translate a k c).2)
  | .resolve a c => (.place (t.resolve a c).1, (t.resolve a c).2)
  | .probe a k c => (.granted (t.probe a k c), t)

/-- The table after questions that were asked one after another. -/
def askAll (t : Tlb) (qs : List Question) : Tlb := qs.foldl (fun t q => (t.ask q).2) t

theorem peek_eq_of_contents (h : t.contents = u.contents) (a : Word) : t.peek a = u.peek a := by
  rw [peek_eq_find?, peek_eq_find?, h]

theorem ask_eq_of_contents (h : t.contents = u.contents) (q : Question) :
    (t.ask q).1 = (u.ask q).1 := by
  cases q with
  | translate a k c => exact congrArg Response.place (translate_eq_of_contents h)
  | resolve a c => simp only [ask, resolve_fst, peek_eq_of_contents h]
  | probe a k c => simp only [ask, probe, peek_eq_of_contents h]

theorem contents_ask (t : Tlb) (q : Question) : (t.ask q).2.contents = t.contents := by
  cases q with
  | translate a k c => exact t.contents_translate a k c
  | resolve a c => exact t.contents_resolve a c
  | probe a k c => rfl

theorem contents_askAll (t : Tlb) (qs : List Question) : (t.askAll qs).contents = t.contents := by
  induction qs generalizing t with
  | nil => rfl
  | cons q qs ih => exact (ih (t.ask q).2).trans (t.contents_ask q)

/-- The questions about an address agree, and every question is answered as if nothing had been
asked before. -/
theorem questions_agree (t : Tlb) : (∀ a k c, t.Agrees a k c) ∧
    ∀ (asked : List Question) (q : Question), ((t.askAll asked).ask q).1 = (t.ask q).1 :=
  ⟨t.agrees, fun asked q => ask_eq_of_contents (t.contents_askAll asked) q⟩

end Tlb

end Processor64
