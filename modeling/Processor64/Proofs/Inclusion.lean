import Processor64.Proofs.Replacement

/-!
# Larger tables hold what smaller ones hold

A cache that gives up what was used least recently has the inclusion property: after the same
requests a larger one holds all that a smaller one holds, and hits wherever that does
(`Tlb.larger_includes_smaller`).

Of two lists of mappings, the smaller's is a sublist of the larger's (`RecencyList.Within`). A purge
may take a mapping from the larger list only, and then that list has room where the smaller one has
none. The other way round would break the property, and is excluded by a bound: the lists never
differ in length by more than their capacities do.
-/

namespace Processor64

namespace RecencyList

variable {c d : RecencyList} {p : Page} {m : Mapping}

/-- The mappings are of different pages, and no more than the capacity. -/
structure Lawful (c : RecencyList) : Prop where
  pages : (c.mappings.map (·.page)).Nodup
  length_le : c.mappings.length ≤ c.capacity

theorem mem_of_find? (h : c.find? p = some m) : m ∈ c.mappings ∧ m.page = p :=
  ⟨List.mem_of_find?_eq_some h, by simpa using List.find?_some h⟩

theorem find?_of_mem (h : (c.mappings.map (·.page)).Nodup) (hm : m ∈ c.mappings)
    (hp : m.page = p) : c.find? p = some m := by
  rcases hf : c.find? p with _ | n
  · exact absurd hp (by simpa using List.find?_eq_none.mp hf m hm)
  · obtain ⟨hn, hpage⟩ := mem_of_find? hf
    rw [List.inj_on_of_nodup_map h hn hm (hpage.trans hp.symm)]

theorem without_of_find?_none (h : c.find? p = none) : c.without p = c.mappings := by
  rw [without, List.filter_eq_self]
  simpa [find?] using h

/-- Of mappings of different pages one goes with its page. -/
theorem length_without (h : (c.mappings.map (·.page)).Nodup) (hf : c.find? p = some m) :
    (c.without p).length + 1 = c.mappings.length := by
  obtain ⟨hm, hp⟩ := mem_of_find? hf
  have hmem : p ∈ c.mappings.map (·.page) := hp ▸ List.mem_map_of_mem hm
  have hmap : (c.without p).map (·.page) = (c.mappings.map (·.page)).erase p := by
    rw [h.erase_eq_filter, without, List.filter_map]
    rfl
  have hlen := congrArg List.length hmap
  have hpos := List.length_pos_of_mem hm
  rw [List.length_map, List.length_erase_of_mem hmem, List.length_map] at hlen
  omega

theorem without_sublist (c : RecencyList) (p : Page) : (c.without p).Sublist c.mappings :=
  List.filter_sublist

theorem page_ne_of_mem_without (hm : m ∈ c.without p) : m.page ≠ p := by
  simpa using (List.mem_filter.mp hm).2

/-! ## What stays when a page comes in -/

theorem kept_sublist (c : RecencyList) (p : Page) : (c.kept p).Sublist c.mappings := by
  unfold kept
  split_ifs
  · exact c.without_sublist p
  · exact List.Sublist.refl _
  · exact List.dropLast_sublist _

theorem page_ne_of_mem_kept (hm : m ∈ c.kept p) : m.page ≠ p := by
  unfold kept at hm
  rcases hf : c.find? p with _ | n
  · have hne := List.find?_eq_none.mp hf m ((c.kept_sublist p).subset (by rwa [kept]))
    simpa using hne
  · exact page_ne_of_mem_without (by simpa [hf] using hm)

theorem kept_of_some (h : c.find? p = some m) : c.kept p = c.without p := by
  simp [kept, h]

theorem kept_of_lt (h : c.find? p = none) (hlt : c.mappings.length < c.capacity) :
    c.kept p = c.mappings := by
  simp [kept, h, hlt]

theorem kept_of_full (h : c.find? p = none) (hfull : c.capacity ≤ c.mappings.length) :
    c.kept p = c.mappings.dropLast := by
  simp [kept, h, Nat.not_lt.mpr hfull]

namespace Lawful

/-- A mapping in front of others, of which none is of its page. -/
theorem front (h : c.Lawful) {rest : List Mapping} (hsub : rest.Sublist c.mappings)
    (hne : ∀ n ∈ rest, n.page ≠ m.page) (hlen : rest.length + 1 ≤ c.capacity) (hits misses : Nat) :
    Lawful ⟨c.capacity, m :: rest, hits, misses⟩ where
  pages := by
    rw [List.map_cons, List.nodup_cons, List.mem_map]
    refine ⟨?_, h.pages.sublist (hsub.map _)⟩
    rintro ⟨n, hn, hp⟩
    exact hne n hn hp
  length_le := hlen

/-- There is room for one more beside what an insertion keeps. -/
theorem length_kept_lt (h : c.Lawful) (hpos : 0 < c.capacity) (p : Page) :
    (c.kept p).length + 1 ≤ c.capacity := by
  have hle := h.length_le
  rcases hf : c.find? p with _ | m
  · rcases Nat.lt_or_ge c.mappings.length c.capacity with hlt | hfull
    · rw [kept_of_lt hf hlt]
      exact hlt
    · rw [kept_of_full hf hfull, List.length_dropLast]
      omega
  · rw [kept_of_some hf, length_without h.pages hf]
    exact hle

theorem perform (h : c.Lawful) (hpos : 0 < c.capacity) (r : TlbRequest) :
    (c.perform r).2.Lawful := by
  cases r with
  | insert m =>
    exact h.front (c.kept_sublist m.page) (fun _ => page_ne_of_mem_kept)
      (h.length_kept_lt hpos m.page) _ _
  | lookup a =>
    simp only [RecencyList.perform]
    rcases hf : c.find? a.page with _ | m
    · exact ⟨h.pages, h.length_le⟩
    · refine h.front (c.without_sublist a.page) (fun n hn => ?_) ?_ _ _
      · rw [(mem_of_find? hf).2]
        exact page_ne_of_mem_without hn
      · rw [length_without h.pages hf]
        exact h.length_le
  | peek a => exact h
  | purge a =>
    exact ⟨h.pages.sublist ((c.without_sublist a.page).map _),
      Nat.le_trans (c.without_sublist a.page).length_le h.length_le⟩
  | reset => exact ⟨.nil, Nat.zero_le _⟩
  | clearCounters => exact ⟨h.pages, h.length_le⟩

end Lawful

/-! ## Two lists after the same requests -/

/-- The list holds no more than the other, in the same order, and has not hit more often. It falls
behind in length by no more than in capacity, so it is full whenever the other is. -/
structure Within (c d : RecencyList) : Prop where
  smaller : c.Lawful
  larger : d.Lawful
  capacity : c.capacity ≤ d.capacity
  sublist : c.mappings.Sublist d.mappings
  behind : d.mappings.length + c.capacity ≤ c.mappings.length + d.capacity
  hits : c.hits ≤ d.hits

namespace Within

theorem find? (h : Within c d) (hf : c.find? p = some m) : d.find? p = some m :=
  have ⟨hm, hp⟩ := mem_of_find? hf
  find?_of_mem h.larger.pages (h.sublist.subset hm) hp

theorem without (h : Within c d) (p : Page) : (c.without p).Sublist (d.without p) :=
  h.sublist.filter _

/-- What a page leaves of the two lists differs no more than the lists did. -/
theorem behind_without (h : Within c d) (p : Page) :
    (d.without p).length + c.capacity ≤ (c.without p).length + d.capacity := by
  have hbehind := h.behind
  have hle := (d.without_sublist p).length_le
  rcases hc : c.find? p with _ | m
  · rw [without_of_find?_none hc]
    omega
  · have hd := length_without h.larger.pages (h.find? hc)
    have hc := length_without h.smaller.pages hc
    omega

/-- The page is in both lists, in the larger one, or in none; and then a full larger list stands
beside a full smaller one. -/
theorem kept (h : Within c d) (p : Page) :
    (c.kept p).Sublist (d.kept p) ∧
      (d.kept p).length + c.capacity ≤ (c.kept p).length + d.capacity := by
  have hcapacity := h.capacity
  have hbehind := h.behind
  have hsmaller := h.smaller.length_le
  have hlarger := h.larger.length_le
  rcases hc : c.find? p with _ | m
  · rcases hd : d.find? p with _ | n
    · rcases Nat.lt_or_ge c.mappings.length c.capacity with hlt | hfull
      · rw [kept_of_lt hc hlt, kept_of_lt hd (by omega)]
        exact ⟨h.sublist, hbehind⟩
      · rw [kept_of_full hc hfull, List.length_dropLast]
        rcases Nat.lt_or_ge d.mappings.length d.capacity with hlt' | hfull'
        · rw [kept_of_lt hd hlt']
          exact ⟨(List.dropLast_sublist _).trans h.sublist, by omega⟩
        · rw [kept_of_full hd hfull', List.length_dropLast]
          refine ⟨List.reverse_sublist.mp ?_, by omega⟩
          rw [← List.tail_reverse, ← List.tail_reverse]
          exact h.sublist.reverse.tail
    -- the larger list renews a mapping that the smaller one had given up
    · have hwithout := h.without p
      have hlen := length_without h.larger.pages hd
      rw [without_of_find?_none hc] at hwithout
      rw [kept_of_some hd]
      refine ⟨(c.kept_sublist p).trans hwithout, ?_⟩
      rcases Nat.lt_or_ge c.mappings.length c.capacity with hlt | hfull
      · rw [kept_of_lt hc hlt]
        omega
      · rw [kept_of_full hc hfull, List.length_dropLast]
        omega
  · rw [kept_of_some hc, kept_of_some (h.find? hc)]
    exact ⟨h.without p, h.behind_without p⟩

/-- A mapping that is put in front of both lists. -/
theorem front {xs ys : List Mapping} {hits misses hits' misses' : Nat}
    (hc : Lawful ⟨c.capacity, m :: xs, hits, misses⟩)
    (hd : Lawful ⟨d.capacity, m :: ys, hits', misses'⟩) (h : Within c d) (hsub : xs.Sublist ys)
    (hlen : ys.length + c.capacity ≤ xs.length + d.capacity) (hhits : hits ≤ hits') :
    Within ⟨c.capacity, m :: xs, hits, misses⟩ ⟨d.capacity, m :: ys, hits', misses'⟩ where
  smaller := hc
  larger := hd
  capacity := h.capacity
  sublist := hsub.cons_cons m
  behind := by
    simp only [List.length_cons]
    omega
  hits := hhits

/-- A lookup that misses in the smaller list only moves a mapping in the larger one. -/
theorem lookup (h : Within c d) (hpos : 0 < c.capacity) (a : Word) :
    Within (c.perform (.lookup a)).2 (d.perform (.lookup a)).2 := by
  have hc := h.smaller.perform hpos (.lookup a)
  have hd := h.larger.perform (Nat.lt_of_lt_of_le hpos h.capacity) (.lookup a)
  have hbehind := h.behind
  simp only [RecencyList.perform] at hc hd ⊢
  rcases hcf : c.find? a.page with _ | m
  · rcases hdf : d.find? a.page with _ | n
    · exact ⟨⟨h.smaller.pages, h.smaller.length_le⟩, ⟨h.larger.pages, h.larger.length_le⟩,
        h.capacity, h.sublist, hbehind, h.hits⟩
    · rw [hdf] at hd
      have hwithout := h.without a.page
      rw [without_of_find?_none hcf] at hwithout
      exact
        { smaller := ⟨h.smaller.pages, h.smaller.length_le⟩
          larger := hd
          capacity := h.capacity
          sublist := hwithout.cons n
          behind := by simpa [length_without h.larger.pages hdf] using hbehind
          hits := Nat.le_succ_of_le h.hits }
  · have hdf := h.find? hcf
    rw [hcf] at hc
    rw [hdf] at hd ⊢
    exact h.front hc hd (h.without a.page) (h.behind_without a.page) (Nat.succ_le_succ h.hits)

theorem perform (h : Within c d) (hpos : 0 < c.capacity) (r : TlbRequest) :
    Within (c.perform r).2 (d.perform r).2 := by
  have hc := h.smaller.perform hpos r
  have hd := h.larger.perform (Nat.lt_of_lt_of_le hpos h.capacity) r
  cases r with
  | insert m => exact h.front hc hd (h.kept m.page).1 (h.kept m.page).2 h.hits
  | lookup a => exact h.lookup hpos a
  | peek a => exact h
  | purge a => exact ⟨hc, hd, h.capacity, h.without a.page, h.behind_without a.page, h.hits⟩
  | reset =>
    exact ⟨hc, hd, h.capacity, List.Sublist.refl _, Nat.add_le_add_left h.capacity _, h.hits⟩
  | clearCounters => exact ⟨hc, hd, h.capacity, h.sublist, h.behind, Nat.le_refl _⟩

/-- A request that the smaller list answers with a mapping is answered alike by the larger. -/
theorem answer (h : Within c d) {r : TlbRequest}
    (ha : (c.perform r).1 = .mapping (some m)) : (d.perform r).1 = .mapping (some m) := by
  cases r with
  | lookup a =>
    simp only [RecencyList.perform] at ha ⊢
    rcases hf : c.find? a.page with _ | n
    · rw [hf] at ha
      cases ha
    · rw [hf] at ha
      rw [h.find? hf]
      exact ha
  | peek a => exact congrArg TlbAnswer.mapping (h.find? (TlbAnswer.mapping.inj ha))
  | _ => cases ha

theorem empty {n k : Nat} (h : n ≤ k) : Within (.empty n) (.empty k) :=
  ⟨⟨.nil, Nat.zero_le _⟩, ⟨.nil, Nat.zero_le _⟩, h, List.Sublist.refl _,
    Nat.add_le_add_left h _, Nat.le_refl _⟩

/-- What one request keeps, a run of them does. -/
theorem run (h : Within c d) (hpos : 0 < c.capacity) (rs : List TlbRequest) :
    Within (TlbRequest.run RecencyList.perform c rs).2 (TlbRequest.run RecencyList.perform d rs).2 ∧
      ∀ (k : Nat) (m : Mapping),
        (TlbRequest.run RecencyList.perform c rs).1[k]? = some (TlbAnswer.mapping (some m)) →
        (TlbRequest.run RecencyList.perform d rs).1[k]? = some (TlbAnswer.mapping (some m)) := by
  induction rs generalizing c d with
  | nil => exact ⟨h, fun k m hk => by simp [TlbRequest.run] at hk⟩
  | cons r rs ih =>
    obtain ⟨hend, hanswers⟩ := ih (h.perform hpos r) (by rwa [capacity_perform])
    refine ⟨hend, fun k m hk => ?_⟩
    cases k with
    | zero =>
      simp only [TlbRequest.run, List.getElem?_cons_zero, Option.some.injEq] at hk ⊢
      exact h.answer hk
    | succ k =>
      simp only [TlbRequest.run, List.getElem?_cons_succ] at hk ⊢
      exact hanswers k m hk

end Within

end RecencyList

namespace Tlb

variable {t : Tlb} {c : RecencyList} {order : List Slot}

/-- The valid slots hold the mappings of the list. -/
theorem Tracks.valid_iff (h : t.Tracks c order) {m : Mapping} :
    (∃ s ∈ t.slots, s.valid = true ∧ s.mapping = m) ↔ m ∈ c.mappings := by
  rw [← h.mappings, List.mem_map]
  simp only [h.ordered.mem_iff, and_assoc]

/-- After the same requests a table of at least as many slots holds every mapping that the smaller
table holds. It has answered with a mapping wherever that one did, with the same, and it has hit at
least as often. -/
theorem larger_includes_smaller (n k : Nat) (hn : 1 ≤ n) (hk : n ≤ k) (rs : List TlbRequest) :
    let small := TlbRequest.run perform (create n) rs
    let large := TlbRequest.run perform (create k) rs
    (∀ s ∈ small.2.slots, s.valid = true →
      ∃ u ∈ large.2.slots, u.valid = true ∧ u.mapping = s.mapping) ∧
    (∀ (i : Nat) m, small.1[i]? = some (TlbAnswer.mapping (some m)) →
      large.1[i]? = some (TlbAnswer.mapping (some m))) ∧
    small.2.hits ≤ large.2.hits := by
  intro small large
  have hcreate (j : Nat) (hj : 1 ≤ j) : (create j).Tracks (.empty j) [] := by
    have hmax := Tracks.create j
    rwa [Nat.max_eq_left hj] at hmax
  obtain ⟨hsmall, order, hs⟩ := (hcreate n hn).run hn rs
  obtain ⟨hlarge, order', hl⟩ := (hcreate k (Nat.le_trans hn hk)).run (Nat.le_trans hn hk) rs
  obtain ⟨hwithin, hanswers⟩ := (RecencyList.Within.empty hk).run hn rs
  refine ⟨fun s hmem hv => ?_, fun i m hi => ?_, ?_⟩
  · exact hl.valid_iff.mpr (hwithin.sublist.subset (hs.valid_iff.mp ⟨s, hmem, hv, rfl⟩))
  · rw [hlarge]
    exact hanswers i m (hsmall ▸ hi)
  · rw [hs.hits, hl.hits]
    exact hwithin.hits

/-- The first page has gone from two slots when it is looked up, and is still in three. The purge
leaves a free slot in the larger table only. -/
def pagesWithPurge : List TlbRequest :=
  [.insert ⟨1, 5, 1, 0⟩, .insert ⟨2, 6, 1, 0⟩, .insert ⟨3, 7, 1, 0⟩, .lookup 0x4000,
    .lookup 0x8000, .purge 0x4000, .insert ⟨4, 8, 1, 0⟩, .lookup 0x8000]

theorem pagesWithPurge_includes :
    1 ≤ 2 ∧ 2 ≤ 3 ∧
    (TlbRequest.run perform (create 2) pagesWithPurge).1[3]? = some (.mapping none) ∧
    (TlbRequest.run perform (create 3) pagesWithPurge).1[3]? =
      some (.mapping (some ⟨1, 5, 1, 0⟩)) ∧
    (TlbRequest.run perform (create 2) pagesWithPurge).1[7]? =
      some (.mapping (some ⟨2, 6, 1, 0⟩)) ∧
    (TlbRequest.run perform (create 3) pagesWithPurge).1[7]? =
      some (.mapping (some ⟨2, 6, 1, 0⟩)) ∧
    (TlbRequest.run perform (create 2) pagesWithPurge).2.hits ≤
      (TlbRequest.run perform (create 3) pagesWithPurge).2.hits := by
  obtain ⟨-, hanswers, hhits⟩ := larger_includes_smaller 2 3 (by decide) (by decide) pagesWithPurge
  have hhit : (TlbRequest.run perform (create 2) pagesWithPurge).1[7]? =
      some (.mapping (some ⟨2, 6, 1, 0⟩)) := by decide
  exact ⟨by decide, by decide, by decide, by decide, hhit, hanswers 7 _ hhit, hhits⟩

end Tlb

end Processor64
