import Mathlib.Data.List.Perm.Basic
import Mathlib.Data.List.Nodup
import Processor64.Proofs.Recency

/-!
# Replacement

The translation buffer is a cache that gives up what was used least recently. Without slots, stamps
and a clock such a cache is a list of mappings with different pages, the one used last first
(`RecencyList`): a hit moves its mapping to the front, an insertion puts its own there, and the last
one is dropped when there are more than the capacity.

From its creation on the buffer answers every request as the list does, and it holds the mappings
of the list, in the order that its stamps tell (`answers_eq_recencyList`). What carries this through
the requests is that the valid slots can be put in an order of falling stamps and have different
pages (`Tlb.Ordered`).
-/

namespace Processor64

/-- What a program and its host ask of the buffer. -/
inductive TlbRequest where
  | insert (m : Mapping)
  | lookup (a : Word)
  | peek (a : Word)
  | purge (a : Word)
  | reset
  | clearCounters
  deriving DecidableEq, Repr

/-- What a request is answered with. The slot of an insertion is left out. -/
inductive TlbAnswer where
  | done
  | mapping (m : Option Mapping)
  | purged (yes : Bool)
  deriving DecidableEq, Repr

/-- The answers to requests that are made one after another, and the state after them. -/
def TlbRequest.run {σ : Type} (perform : σ → TlbRequest → TlbAnswer × σ) :
    σ → List TlbRequest → List TlbAnswer × σ
  | s, [] => ([], s)
  | s, r :: rs =>
    let (a, s) := perform s r
    let (as, s) := run perform s rs
    (a :: as, s)

/-- Mappings of different pages, the one used last first. -/
structure RecencyList where
  capacity : Nat
  mappings : List Mapping
  hits : Nat
  misses : Nat
  deriving DecidableEq, Repr

namespace RecencyList

def empty (capacity : Nat) : RecencyList := ⟨capacity, [], 0, 0⟩

def find? (c : RecencyList) (p : Page) : Option Mapping := c.mappings.find? (·.page == p)

/-- The mappings of all other pages. -/
def without (c : RecencyList) (p : Page) : List Mapping := c.mappings.filter (·.page != p)

/-- The mappings that stay when one of page `p` comes in. -/
def kept (c : RecencyList) (p : Page) : List Mapping :=
  if (c.find? p).isSome then c.without p
  else if c.mappings.length < c.capacity then c.mappings
  else c.mappings.dropLast

def perform (c : RecencyList) : TlbRequest → TlbAnswer × RecencyList
  | .insert m => (.done, { c with mappings := m :: c.kept m.page })
  | .lookup a =>
    match c.find? a.page with
    | some m => (.mapping (some m),
        { c with mappings := m :: c.without a.page, hits := c.hits + 1 })
    | none => (.mapping none, { c with misses := c.misses + 1 })
  | .peek a => (.mapping (c.find? a.page), c)
  | .purge a => (.purged (c.find? a.page).isSome, { c with mappings := c.without a.page })
  | .reset => (.done, { c with mappings := [] })
  | .clearCounters => (.done, { c with hits := 0, misses := 0 })

theorem capacity_perform (c : RecencyList) (r : TlbRequest) :
    (c.perform r).2.capacity = c.capacity := by
  cases r with
  | lookup a =>
    rw [perform]
    rcases c.find? a.page with _ | m <;> rfl
  | _ => rfl

theorem capacity_run (c : RecencyList) (rs : List TlbRequest) :
    (TlbRequest.run perform c rs).2.capacity = c.capacity := by
  induction rs generalizing c with
  | nil => rfl
  | cons r rs ih => exact (ih (c.perform r).2).trans (c.capacity_perform r)

end RecencyList

namespace Tlb

def perform (t : Tlb) : TlbRequest → TlbAnswer × Tlb
  | .insert m => (.done, (t.insert m).2)
  | .lookup a => (.mapping (t.lookup a).1, (t.lookup a).2)
  | .peek a => (.mapping (t.peek a), t)
  | .purge a => (.purged (t.purge a).1, (t.purge a).2)
  | .reset => (.done, t.reset)
  | .clearCounters => (.done, t.clearCounters)

/-- The mappings of the valid slots, the latest stamp first. -/
def recency (t : Tlb) : List Mapping :=
  ((t.slots.filter (·.valid)).mergeSort fun s u => u.stamp ≤ s.stamp).map (·.mapping)

/-- Where a mapping of page `p` goes: into the slot that holds the page, else into the invalid slot
with the lowest number, else over the last mapping of the list. -/
def IsPlaceFor (t : Tlb) (c : RecencyList) (p : Page) (i : Nat) : Prop :=
  ∃ s, t.slots[i]? = some s ∧
    match c.find? p with
    | some m => s.valid = true ∧ s.mapping = m
    | none =>
      s.valid = false ∧ (∀ u ∈ t.slots.take i, u.valid = true) ∨
        (∀ u ∈ t.slots, u.valid = true) ∧ c.mappings.getLast? = some s.mapping

/-- The table holds the mappings of the list in their order, and puts the next one where the list
says. -/
structure Represents (t : Tlb) (c : RecencyList) : Prop where
  recency : t.recency = c.mappings
  pages : (c.mappings.map (·.page)).Nodup
  capacity : t.capacity = c.capacity
  length_le : c.mappings.length ≤ c.capacity
  validCount : t.validCount = c.mappings.length
  hits : t.hits = c.hits
  misses : t.misses = c.misses
  insert : ∀ m, t.IsPlaceFor c m.page (t.insert m).1

/-- The valid slots have different stamps, in which they are put in order, and different pages. No
stamp is ahead of the clock. -/
structure Ordered (t : Tlb) (order : List Slot) : Prop where
  perm : order.Perm (t.slots.filter (·.valid))
  latest : order.Pairwise fun s u => u.stamp < s.stamp
  pages : order.Pairwise fun s u => s.mapping.page ≠ u.mapping.page
  bounded : ∀ s ∈ t.slots, s.stamp ≤ t.clock

/-- The slots that are left of the order for a page to come into slot `i`. -/
structure Remaining (t : Tlb) (order : List Slot) (i : Nat) (p : Page) (rest : List Slot) :
    Prop where
  sublist : rest.Sublist order
  perm : rest.Perm ((t.slots.eraseIdx i).filter (·.valid))
  ne : ∀ s ∈ rest, s.mapping.page ≠ p

variable {t : Tlb} {order rest : List Slot} {p : Page} {i : Nat} {s x : Slot}

/-! ## Slots by their page -/

theorem holds_of_find? {hi : i < t.slots.length} (h : t.find? p = some ⟨i, hi⟩) :
    t.slots[i].valid = true ∧ t.slots[i].mapping.page = p := by
  have hholds := (List.findFinIdx?_eq_some_iff.mp h).1
  simpa [Slot.holds] using hholds

theorem page_ne_of_find? (h : t.find? p = none) {s : Slot} (hs : s ∈ t.slots)
    (hv : s.valid = true) : s.mapping.page ≠ p := by
  have hn := List.findFinIdx?_eq_none_iff.mp h s hs
  simpa [Slot.holds, hv] using hn

/-! ## The slot that gives way -/

/-- The first of the lowest ages is no higher than any other, and lower than those before it. -/
theorem firstLowest_spec {ages : List Nat} (h : ages ≠ []) :
    ∃ a, ages[firstLowest ages]? = some a ∧ (∀ b ∈ ages, a ≤ b) ∧
      ∀ b ∈ ages.take (firstLowest ages), a < b := by
  induction ages with
  | nil => exact absurd rfl h
  | cons a ages ih =>
    by_cases hall : ages.all (a ≤ ·) = true
    · refine ⟨a, by simp [firstLowest, hall], ?_, by simp [firstLowest, hall]⟩
      simpa using hall
    · obtain ⟨b, hb, hlt⟩ : ∃ b ∈ ages, b < a := by simpa using hall
      obtain ⟨c, hc, hle, hbefore⟩ := ih (List.ne_nil_of_mem hb)
      have hca : c < a := Nat.lt_of_le_of_lt (hle b hb) hlt
      have hfirst : firstLowest (a :: ages) = firstLowest ages + 1 := by simp [firstLowest, hall]
      refine ⟨c, by simpa [hfirst] using hc, ?_, ?_⟩
      · simpa using ⟨Nat.le_of_lt hca, hle⟩
      · simpa [hfirst] using ⟨hca, hbefore⟩

theorem age_of_valid (h : s.valid = true) : s.age = s.stamp + 1 := by simp [Slot.age, h]

theorem valid_of_age_pos (h : 0 < s.age) : s.valid = true := by
  by_contra hv
  simp [Slot.age, hv] at h

/-- The slot that gives way is the first invalid one, or one of the oldest of only valid ones. -/
theorem victim_cases (h : t.slots ≠ []) :
    ∃ s, t.slots[t.victim]? = some s ∧
      (s.valid = false ∧ (∀ u ∈ t.slots.take t.victim, u.valid = true) ∨
        (∀ u ∈ t.slots, u.valid = true) ∧ ∀ u ∈ t.slots, s.stamp ≤ u.stamp) := by
  have hne : t.slots.map Slot.age ≠ [] := by simpa using h
  obtain ⟨a, ha, hle, hbefore⟩ := firstLowest_spec hne
  obtain ⟨s, hs, rfl⟩ : ∃ s, t.slots[t.victim]? = some s ∧ s.age = a := by
    simpa [victim] using ha
  refine ⟨s, hs, ?_⟩
  by_cases hv : s.valid = true
  · have hage : ∀ u ∈ t.slots, s.stamp + 1 ≤ u.age := by
      intro u hu
      rw [← age_of_valid hv]
      exact hle u.age (List.mem_map_of_mem hu)
    have hvalid : ∀ u ∈ t.slots, u.valid = true := by
      intro u hu
      exact valid_of_age_pos (Nat.lt_of_lt_of_le (Nat.succ_pos _) (hage u hu))
    refine .inr ⟨hvalid, fun u hu => ?_⟩
    have hu' := hage u hu
    rw [age_of_valid (hvalid u hu)] at hu'
    omega
  · refine .inl ⟨by simpa using hv, fun u hu => ?_⟩
    have hlt : s.age < u.age := by
      refine hbefore u.age ?_
      rw [← List.map_take]
      exact List.mem_map_of_mem hu
    exact valid_of_age_pos (Nat.lt_of_le_of_lt (Nat.zero_le _) hlt)

/-! ## The order of last use -/

namespace Ordered

theorem mem_iff (h : t.Ordered order) : s ∈ order ↔ s ∈ t.slots ∧ s.valid = true := by
  rw [h.perm.mem_iff, List.mem_filter]

theorem eq_of_page (h : t.Ordered order) {u : Slot} (hs : s ∈ order) (hu : u ∈ order)
    (hp : s.mapping.page = u.mapping.page) : s = u := by
  have hnodup : (order.map (·.mapping.page)).Nodup := List.pairwise_map.mpr h.pages
  exact List.inj_on_of_nodup_map hnodup hs hu hp

theorem eq_of_stamp (h : t.Ordered order) {u : Slot} (hs : s ∈ order) (hu : u ∈ order)
    (hp : s.stamp = u.stamp) : s = u := by
  have hnodup : (order.map (·.stamp)).Nodup :=
    List.pairwise_map.mpr (h.latest.imp fun hlt => Nat.ne_of_gt hlt)
  exact List.inj_on_of_nodup_map hnodup hs hu hp

/-- There is only one order, and sorting by the stamps finds it. -/
theorem recency_eq (h : t.Ordered order) : t.recency = order.map (·.mapping) := by
  have htrans : ∀ a b c : Slot, decide (b.stamp ≤ a.stamp) = true →
      decide (c.stamp ≤ b.stamp) = true → decide (c.stamp ≤ a.stamp) = true := by
    simp only [decide_eq_true_eq]
    omega
  have htotal : ∀ a b : Slot,
      (decide (b.stamp ≤ a.stamp) || decide (a.stamp ≤ b.stamp)) = true := by
    simp only [Bool.or_eq_true, decide_eq_true_eq]
    omega
  have hsorted := (List.pairwise_mergeSort htrans htotal (t.slots.filter (·.valid))).imp
    of_decide_eq_true
  have hperm : ((t.slots.filter (·.valid)).mergeSort fun s u => u.stamp ≤ s.stamp).Perm order :=
    (List.mergeSort_perm _ _).trans h.perm.symm
  have heq := List.Perm.eq_of_pairwise (fun s u hs hu hle hge =>
    h.eq_of_stamp (hperm.mem_iff.mp hs) hu (Nat.le_antisymm hge hle))
    hsorted (h.latest.imp Nat.le_of_lt) hperm
  rw [Tlb.recency, heq]

theorem length_eq (h : t.Ordered order) : order.length = t.validCount := by
  rw [h.perm.length_eq, validCount, List.countP_eq_length_filter]

theorem length_lt_iff (h : t.Ordered order) :
    order.length < t.slots.length ↔ ∃ s ∈ t.slots, s.valid = false := by
  rw [h.perm.length_eq, List.length_filter_lt_length_iff_exists]
  simp

/-- Of only valid slots the oldest comes last. -/
theorem getLast?_eq (h : t.Ordered order) (hvalid : ∀ u ∈ t.slots, u.valid = true)
    (hs : s ∈ t.slots) (holdest : ∀ u ∈ t.slots, s.stamp ≤ u.stamp) : order.getLast? = some s := by
  have hmem : s ∈ order := h.mem_iff.mpr ⟨hs, hvalid s hs⟩
  obtain ⟨init, last, rfl⟩ := (List.eq_nil_or_concat' order).resolve_left
    (List.ne_nil_of_mem hmem)
  have hlatest := (List.pairwise_append.mp h.latest).2.2
  have hlast : last ∈ t.slots := (h.mem_iff.mp (by simp)).1
  rcases List.mem_append.mp hmem with hinit | hmem
  · have hlt := hlatest s hinit last (List.mem_singleton_self last)
    have hle := holdest last hlast
    omega
  · rw [List.mem_singleton.mp hmem, List.getLast?_concat]

/-! ### One slot changes -/

/-- The order consists of the slot at `i` and the valid ones beside it. -/
theorem perm_of_valid (h : t.Ordered order) (hi : i < t.slots.length)
    (hv : t.slots[i].valid = true) :
    order.Perm (t.slots[i] :: (t.slots.eraseIdx i).filter (·.valid)) := by
  have hslots := (List.getElem_cons_eraseIdx_perm hi).symm.filter (·.valid)
  rw [List.filter_cons_of_pos hv] at hslots
  exact h.perm.trans hslots

theorem perm_of_invalid (h : t.Ordered order) (hi : i < t.slots.length)
    (hv : t.slots[i].valid = false) : order.Perm ((t.slots.eraseIdx i).filter (·.valid)) := by
  have hslots := (List.getElem_cons_eraseIdx_perm hi).symm.filter (·.valid)
  rw [List.filter_cons_of_neg (by simp [hv])] at hslots
  exact h.perm.trans hslots

/-- Leaving out a page leaves out the slot that holds it. -/
theorem remaining_of_page (h : t.Ordered order) (hi : i < t.slots.length)
    (hv : t.slots[i].valid = true) (hp : t.slots[i].mapping.page = p) :
    t.Remaining order i p (order.filter (·.mapping.page != p)) where
  sublist := List.filter_sublist
  perm := by
    have hperm := h.perm_of_valid hi hv
    have hpages := (hperm.pairwise_iff (fun hne => hne.symm)).mp h.pages
    have hne := (List.pairwise_cons.mp hpages).1
    refine (hperm.filter _).trans ?_
    rw [List.filter_cons_of_neg (by simp [hp]), List.filter_eq_self.mpr]
    intro u hu
    simpa [hp] using (hne u hu).symm
  ne := by
    intro s hs
    simpa using (List.mem_filter.mp hs).2

theorem remaining_of_invalid (h : t.Ordered order) (hi : i < t.slots.length)
    (hv : t.slots[i].valid = false) (hne : ∀ s ∈ order, s.mapping.page ≠ p) :
    t.Remaining order i p order where
  sublist := List.Sublist.refl order
  perm := h.perm_of_invalid hi hv
  ne := hne

theorem remaining_of_last (h : t.Ordered order) (hi : i < t.slots.length)
    (hlast : order.getLast? = some t.slots[i]) (hne : ∀ s ∈ order, s.mapping.page ≠ p) :
    t.Remaining order i p order.dropLast where
  sublist := List.dropLast_sublist order
  perm := by
    have hv := (h.mem_iff.mp (List.mem_of_getLast? hlast)).2
    obtain ⟨init, rfl⟩ := List.getLast?_eq_some_iff.mp hlast
    have hperm := (List.perm_append_singleton t.slots[i] init).symm.trans (h.perm_of_valid hi hv)
    rw [List.dropLast_concat]
    exact hperm.cons_inv
  ne := fun s hs => hne s (List.dropLast_subset order hs)

/-- A slot that is not valid takes the place of one that leaves the order. -/
theorem drop (h : t.Ordered order) (hi : i < t.slots.length) (hrest : t.Remaining order i p rest)
    (hv : x.valid = false) (hx : x.stamp ≤ t.clock) :
    { t with slots := t.slots.set i x }.Ordered rest where
  perm := by
    have hset := (List.set_perm_cons_eraseIdx hi x).filter (·.valid)
    rw [List.filter_cons_of_neg (by simp [hv])] at hset
    exact hrest.perm.trans hset.symm
  latest := h.latest.sublist hrest.sublist
  pages := h.pages.sublist hrest.sublist
  bounded := by
    intro s hs
    rcases List.mem_or_eq_of_mem_set hs with hs | rfl
    · exact h.bounded s hs
    · exact hx

/-- A slot with the next stamp comes first. -/
theorem renew (h : t.Ordered order) (hi : i < t.slots.length) (hrest : t.Remaining order i p rest)
    (hv : x.valid = true) (hx : x.stamp = t.clock + 1) (hp : x.mapping.page = p) (hits : Nat) :
    Tlb.Ordered ⟨t.slots.set i x, t.clock + 1, hits, t.misses⟩ (x :: rest) where
  perm := by
    have hset := (List.set_perm_cons_eraseIdx hi x).filter (·.valid)
    rw [List.filter_cons_of_pos hv] at hset
    exact (hrest.perm.cons x).trans hset.symm
  latest := by
    refine List.pairwise_cons.mpr ⟨fun s hs => ?_, h.latest.sublist hrest.sublist⟩
    have hle := h.bounded s (h.mem_iff.mp (hrest.sublist.subset hs)).1
    omega
  pages := by
    refine List.pairwise_cons.mpr ⟨fun s hs => ?_, h.pages.sublist hrest.sublist⟩
    rw [hp]
    exact (hrest.ne s hs).symm
  bounded := by
    intro s hs
    rcases List.mem_or_eq_of_mem_set hs with hs | rfl
    · exact Nat.le_trans (h.bounded s hs) (Nat.le_succ _)
    · exact Nat.le_of_eq hx

end Ordered

/-! ## One request -/

/-- The table with its slots in this order stands for the list. -/
structure Tracks (t : Tlb) (c : RecencyList) (order : List Slot) : Prop where
  ordered : t.Ordered order
  mappings : order.map (·.mapping) = c.mappings
  capacity : t.slots.length = c.capacity
  hits : t.hits = c.hits
  misses : t.misses = c.misses

namespace Tracks

variable {c : RecencyList}

theorem find?_of_some (h : t.Tracks c order) {hi : i < t.slots.length}
    (hf : t.find? p = some ⟨i, hi⟩) : c.find? p = some t.slots[i].mapping := by
  obtain ⟨hv, hp⟩ := holds_of_find? hf
  have hmem : t.slots[i] ∈ order := h.ordered.mem_iff.mpr ⟨List.getElem_mem _, hv⟩
  rcases hc : c.find? p with _ | m <;> rw [RecencyList.find?, ← h.mappings, List.find?_map] at hc
  · rw [Option.map_eq_none_iff, List.find?_eq_none] at hc
    exact absurd hp (by simpa using hc _ hmem)
  · obtain ⟨u, hu, rfl⟩ := Option.map_eq_some_iff.mp hc
    have hpage : u.mapping.page = p := by simpa using List.find?_some hu
    rw [h.ordered.eq_of_page (List.mem_of_find?_eq_some hu) hmem (hpage.trans hp.symm)]

theorem find?_of_none (h : t.Tracks c order) (hn : t.find? p = none) : c.find? p = none := by
  rw [RecencyList.find?, ← h.mappings, List.find?_map, Option.map_eq_none_iff, List.find?_eq_none]
  intro s hs
  obtain ⟨hs, hv⟩ := h.ordered.mem_iff.mp hs
  simpa using page_ne_of_find? hn hs hv

theorem page_ne (h : t.Tracks c order) (hn : c.find? p = none) :
    ∀ s ∈ order, s.mapping.page ≠ p := by
  intro s hs
  have hm : s.mapping ∈ c.mappings := by
    rw [← h.mappings]
    exact List.mem_map_of_mem hs
  simpa using List.find?_eq_none.mp hn s.mapping hm

theorem peek_eq (h : t.Tracks c order) (a : Word) : t.peek a = c.find? a.page := by
  rcases hf : t.find? a.page with _ | ⟨i, hi⟩
  · rw [h.find?_of_none hf, peek, hf, Option.map_none]
  · rw [h.find?_of_some hf, peek, hf, Option.map_some]
    rfl

theorem without_eq (h : t.Tracks c order) (p : Page) :
    (order.filter (·.mapping.page != p)).map (·.mapping) = c.without p := by
  rw [RecencyList.without, ← h.mappings, List.filter_map]
  rfl

theorem length_eq (h : t.Tracks c order) : c.mappings.length = order.length := by
  rw [← h.mappings, List.length_map]

theorem length_lt_iff (h : t.Tracks c order) :
    c.mappings.length < c.capacity ↔ ∃ s ∈ t.slots, s.valid = false := by
  rw [h.length_eq, ← h.capacity, h.ordered.length_lt_iff]

theorem isPlaceFor_insert (h : t.Tracks c order) (hne : t.slots ≠ []) (m : Mapping) :
    t.IsPlaceFor c m.page (t.insert m).1 := by
  rcases hf : t.find? m.page with _ | ⟨i, hi⟩
  · obtain ⟨s, hs, hcases⟩ := victim_cases hne
    have hplace : (t.insert m).1 = t.victim := by simp [insert, hf]
    refine ⟨s, by rw [hplace, hs], ?_⟩
    rw [h.find?_of_none hf, hplace]
    rcases hcases with hinvalid | ⟨hvalid, holdest⟩
    · exact .inl hinvalid
    · refine .inr ⟨hvalid, ?_⟩
      rw [← h.mappings, List.getLast?_map,
        h.ordered.getLast?_eq hvalid (List.mem_of_getElem? hs) holdest, Option.map_some]
  · have hplace : (t.insert m).1 = i := by simp [insert, hf]
    refine ⟨t.slots[i], by simp [hplace, hi], ?_⟩
    rw [h.find?_of_some hf]
    exact ⟨(holds_of_find? hf).1, rfl⟩

/-- At its place a page comes in for what the list drops for it. -/
theorem exists_remaining (h : t.Tracks c order) (hi : i < t.slots.length)
    (hp : t.IsPlaceFor c p i) :
    ∃ rest, t.Remaining order i p rest ∧ rest.map (·.mapping) = c.kept p := by
  obtain ⟨s, hs, hcases⟩ := hp
  obtain rfl : t.slots[i] = s := by simpa [hi] using hs
  have hmem := List.getElem_mem hi
  rcases hf : c.find? p with _ | m <;> rw [hf] at hcases
  · have hne := h.page_ne hf
    rcases hcases with ⟨hv, -⟩ | ⟨hvalid, hlast⟩
    -- there is a free slot, so nothing has to go
    · have hlt := h.length_lt_iff.mpr ⟨t.slots[i], hmem, hv⟩
      exact ⟨order, h.ordered.remaining_of_invalid hi hv hne,
        by simp [RecencyList.kept, hf, hlt, h.mappings]⟩
    -- the table is full, and the slot of the last mapping is the last in the order
    · have hfull : ¬ c.mappings.length < c.capacity := by
        rw [h.length_lt_iff]
        rintro ⟨u, hu, hv⟩
        simp [hvalid u hu] at hv
      rw [← h.mappings, List.getLast?_map, Option.map_eq_some_iff] at hlast
      obtain ⟨u, hu, hmap⟩ := hlast
      obtain rfl : u = t.slots[i] := h.ordered.eq_of_page (List.mem_of_getLast? hu)
        (h.ordered.mem_iff.mpr ⟨hmem, hvalid _ hmem⟩) (by rw [hmap])
      exact ⟨order.dropLast, h.ordered.remaining_of_last hi hu hne,
        by simp [RecencyList.kept, hf, hfull, h.mappings]⟩
  -- the page gives way to itself
  · obtain ⟨hv, rfl⟩ := hcases
    have hpage : t.slots[i].mapping.page = p := by simpa using List.find?_some hf
    exact ⟨order.filter (·.mapping.page != p), h.ordered.remaining_of_page hi hv hpage,
      by simp [RecencyList.kept, hf, h.without_eq]⟩

/-! ### Each request -/

theorem insert (h : t.Tracks c order) (hne : t.slots ≠ []) (m : Mapping) :
    ∃ order, (t.insert m).2.Tracks (c.perform (.insert m)).2 order := by
  have hplace := h.isPlaceFor_insert hne m
  have hi : (t.insert m).1 < t.slots.length := by
    obtain ⟨s, hs, -⟩ := hplace
    exact (List.getElem?_eq_some_iff.mp hs).1
  obtain ⟨rest, hrest, hkept⟩ := h.exists_remaining hi hplace
  exact ⟨⟨true, m, t.clock + 1⟩ :: rest,
    { ordered := h.ordered.renew hi hrest rfl rfl rfl t.hits
      mappings := by simp [RecencyList.perform, hkept]
      capacity := by simp [Tlb.insert, RecencyList.perform, h.capacity]
      hits := h.hits
      misses := h.misses }⟩

theorem lookup (h : t.Tracks c order) (a : Word) :
    ∃ order, (t.lookup a).2.Tracks (c.perform (.lookup a)).2 order := by
  rcases hf : t.find? a.page with _ | ⟨i, hi⟩
  · refine ⟨order, ?_⟩
    simp only [Tlb.lookup, hf, RecencyList.perform, h.find?_of_none hf]
    exact
      { ordered := ⟨h.ordered.perm, h.ordered.latest, h.ordered.pages, h.ordered.bounded⟩
        mappings := h.mappings
        capacity := h.capacity
        hits := h.hits
        misses := congrArg (· + 1) h.misses }
  · obtain ⟨hv, hp⟩ := holds_of_find? hf
    have hrest := h.ordered.remaining_of_page hi hv hp
    simp only [Tlb.lookup, hf, RecencyList.perform, h.find?_of_some hf]
    let x : Slot := { t.slots[i] with stamp := t.clock + 1 }
    exact ⟨x :: order.filter (·.mapping.page != a.page),
      { ordered := h.ordered.renew (x := x) hi hrest hv rfl hp (t.hits + 1)
        mappings := by simp [x, h.without_eq]
        capacity := by simp [h.capacity]
        hits := congrArg (· + 1) h.hits
        misses := h.misses }⟩

theorem reset (h : t.Tracks c order) : t.reset.Tracks (c.perform .reset).2 [] where
  ordered :=
    { perm := by simp [Tlb.reset, Slot.empty]
      latest := .nil
      pages := .nil
      bounded := by simp +contextual [Tlb.reset, Slot.empty] }
  mappings := rfl
  capacity := by simp [Tlb.reset, RecencyList.perform, h.capacity]
  hits := h.hits
  misses := h.misses

theorem clearCounters (h : t.Tracks c order) :
    t.clearCounters.Tracks (c.perform .clearCounters).2 order where
  ordered := ⟨h.ordered.perm, h.ordered.latest, h.ordered.pages, h.ordered.bounded⟩
  mappings := h.mappings
  capacity := h.capacity
  hits := rfl
  misses := rfl

theorem create (n : Nat) : (Tlb.create n).Tracks (.empty (max n 1)) [] where
  ordered :=
    { perm := by simp [Tlb.create, Slot.empty]
      latest := .nil
      pages := .nil
      bounded := by simp [Tlb.create, Slot.empty] }
  mappings := rfl
  capacity := by simp [Tlb.create, RecencyList.empty]
  hits := rfl
  misses := rfl

/-- A purge of the buffer is a purge of the list. -/
theorem purge (h : t.Tracks c order) (a : Word) :
    (t.purge a).1 = (c.find? a.page).isSome ∧
      ∃ order, (t.purge a).2.Tracks (c.perform (.purge a)).2 order := by
  rcases hf : t.find? a.page with _ | ⟨i, hi⟩
  · have hn := h.find?_of_none hf
    simp only [Tlb.purge, hf, hn, RecencyList.perform, Option.isSome_none, true_and]
    have hsame : c.without a.page = c.mappings := by
      rw [RecencyList.without, List.filter_eq_self]
      simpa [RecencyList.find?] using hn
    rw [hsame]
    exact ⟨order, h⟩
  · obtain ⟨hv, hp⟩ := holds_of_find? hf
    have hrest := h.ordered.remaining_of_page hi hv hp
    simp only [Tlb.purge, hf, h.find?_of_some hf, RecencyList.perform, Option.isSome_some, true_and]
    exact ⟨_,
      { ordered := h.ordered.drop hi hrest rfl (Nat.zero_le _)
        mappings := h.without_eq a.page
        capacity := by simp [h.capacity]
        hits := h.hits
        misses := h.misses }⟩

/-- A request is answered as the list does, and the table goes on to stand for the list. -/
theorem perform (h : t.Tracks c order) (hne : t.slots ≠ []) (r : TlbRequest) :
    (t.perform r).1 = (c.perform r).1 ∧
      ∃ order, (t.perform r).2.Tracks (c.perform r).2 order := by
  cases r with
  | insert m => exact ⟨rfl, h.insert hne m⟩
  | lookup a =>
    refine ⟨?_, h.lookup a⟩
    rw [Tlb.perform, lookup_fst, h.peek_eq, RecencyList.perform]
    rcases c.find? a.page with _ | m <;> rfl
  | peek a => exact ⟨congrArg TlbAnswer.mapping (h.peek_eq a), order, h⟩
  | purge a => exact ⟨congrArg TlbAnswer.purged (h.purge a).1, (h.purge a).2⟩
  | reset => exact ⟨rfl, [], h.reset⟩
  | clearCounters => exact ⟨rfl, order, h.clearCounters⟩

/-- So are all requests of a run. -/
theorem run (h : t.Tracks c order) (hpos : 0 < c.capacity) (rs : List TlbRequest) :
    (TlbRequest.run Tlb.perform t rs).1 = (TlbRequest.run RecencyList.perform c rs).1 ∧
      ∃ order, (TlbRequest.run Tlb.perform t rs).2.Tracks
        (TlbRequest.run RecencyList.perform c rs).2 order := by
  induction rs generalizing t c order with
  | nil => exact ⟨rfl, order, h⟩
  | cons r rs ih =>
    have hne : t.slots ≠ [] := by
      rw [← List.length_pos_iff, h.capacity]
      exact hpos
    obtain ⟨hanswer, order', h'⟩ := h.perform hne r
    obtain ⟨hanswers, hend⟩ := ih h' (by rw [RecencyList.capacity_perform]; exact hpos)
    exact ⟨by simp only [TlbRequest.run, hanswer, hanswers], hend⟩

/-- The buffer holds what the list holds, in the order of its use. -/
theorem represents (h : t.Tracks c order) (hpos : 0 < c.capacity) : t.Represents c where
  recency := h.ordered.recency_eq.trans h.mappings
  pages := by
    rw [← h.mappings, List.map_map]
    exact List.pairwise_map.mpr h.ordered.pages
  capacity := h.capacity
  length_le := by
    rw [h.length_eq, h.ordered.length_eq, ← h.capacity]
    exact List.countP_le_length
  validCount := by rw [h.length_eq, h.ordered.length_eq]
  hits := h.hits
  misses := h.misses
  insert := by
    refine h.isPlaceFor_insert ?_
    rw [← List.length_pos_iff, h.capacity]
    exact hpos

end Tracks

theorem clock_perform_le (t : Tlb) (r : TlbRequest) : (t.perform r).2.clock ≤ t.clock + 1 := by
  cases r with
  | lookup a =>
    simp only [perform, lookup]
    rcases t.find? a.page with _ | i <;> simp
  | purge a =>
    simp only [perform, purge]
    rcases t.find? a.page with _ | i <;> simp
  | _ => simp [perform, insert, reset, clearCounters]

theorem clock_run_le (t : Tlb) (rs : List TlbRequest) :
    (TlbRequest.run perform t rs).2.clock ≤ t.clock + rs.length := by
  induction rs generalizing t with
  | nil => exact Nat.le_refl _
  | cons r rs ih =>
    have hstep := t.clock_perform_le r
    have hrest := ih (t.perform r).2
    simp only [TlbRequest.run, List.length_cons]
    omega

/-- A table of `n` slots answers as a list of at most `n` mappings that drops the one used least
recently, and holds what the list holds. No stamp is higher than the number of requests. -/
theorem answers_eq_recencyList (n : Nat) (hn : 1 ≤ n) (rs : List TlbRequest) :
    (TlbRequest.run perform (create n) rs).1 =
        (TlbRequest.run RecencyList.perform (.empty n) rs).1 ∧
      (TlbRequest.run perform (create n) rs).2.Represents
        (TlbRequest.run RecencyList.perform (.empty n) rs).2 ∧
      (TlbRequest.run perform (create n) rs).2.clock ≤ rs.length := by
  have hcreate : (create n).Tracks (.empty n) [] := by
    have hmax := Tracks.create n
    rwa [Nat.max_eq_left hn] at hmax
  obtain ⟨hanswers, order, hend⟩ := hcreate.run hn rs
  refine ⟨hanswers, hend.represents ?_, ?_⟩
  · rw [RecencyList.capacity_run]
    exact hn
  · have hclock := clock_run_le (create n) rs
    simpa [create] using hclock

/-- Three pages come into two slots, the first of them used again before the third comes. So the
second has gone then, and the first has stayed. The third is purged in the end. -/
def threePages : List TlbRequest :=
  [.insert ⟨1, 5, 1, 0⟩, .insert ⟨2, 6, 1, 0⟩, .lookup 0x4000, .insert ⟨3, 7, 1, 0⟩,
    .lookup 0x8000, .peek 0x4008, .purge 0xC000]

theorem answers_threePages :
    1 ≤ 2 ∧
      (TlbRequest.run perform (create 2) threePages).1 =
        [.done, .done, .mapping (some ⟨1, 5, 1, 0⟩), .done, .mapping none,
          .mapping (some ⟨1, 5, 1, 0⟩), .purged true] ∧
      (TlbRequest.run perform (create 2) threePages).1 =
        (TlbRequest.run RecencyList.perform (.empty 2) threePages).1 ∧
      (TlbRequest.run perform (create 2) threePages).2.Represents
        (TlbRequest.run RecencyList.perform (.empty 2) threePages).2 ∧
      (TlbRequest.run perform (create 2) threePages).2.clock ≤ 7 :=
  ⟨by decide, by decide, answers_eq_recencyList 2 (by decide) threePages⟩

end Tlb

end Processor64
