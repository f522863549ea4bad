import Processor64.Proofs.Steady

/-!
# Steps and runs

A step counts its cycles off beforehand. A run is a loop that looks at its budget before each cycle
and counts the cycle after it (`Session.Loops`), so the cycle that uses up the budget may also be
the one that stops. Both make the same cycles (`Session.steps_and_runs`): what stops a loop without
a budget stops every run whose budget it fits in.
-/

namespace Processor64

variable {δ : Type} [Device δ]

/-- The name a run gives to the reason of a step that makes as many cycles. -/
def StopReason.ofRun : StopReason → StopReason
  | completed => budgetExhausted
  | r => r

theorem StopReason.ofRun_of_ne {r : StopReason} (h : r ≠ completed) : r.ofRun = r := by
  cases r
  case completed => exact absurd rfl h
  all_goals rfl

namespace Session

/-- The loop of a run, entered after `executed` cycles, ends after `k` cycles in all. -/
inductive Loops (budget : Option Nat) : Nat → Session δ → Nat → StopReason → Session δ → Prop where
  | exhausted {executed limit : Nat} {s : Session δ} (bounded : budget = some limit)
    (reached : limit ≤ executed) : Loops budget executed s executed .budgetExhausted s
  | stops {executed : Nat} {s s' : Session δ} {r : StopReason}
    (within : ∀ limit, budget = some limit → executed < limit) (cycle : s.cycle = (some r, s')) :
    Loops budget executed s (executed + 1) r s'
  | goesOn {executed k : Nat} {s s₁ s' : Session δ} {r : StopReason}
    (within : ∀ limit, budget = some limit → executed < limit) (cycle : s.cycle = (none, s₁))
    (rest : Loops budget (executed + 1) s₁ k r s') : Loops budget executed s k r s'

variable {s s' s'' : Session δ} {executed k k' n : Nat} {r r' : StopReason}

/-! ## Cycles one after the other -/

/-- Cycles come one after another, up to the one that stops. -/
theorem cycles_add (m n : Nat) (s : Session δ) :
    s.cycles (m + n) = match s.cycles m with
      | (none, s₁) => s₁.cycles n
      | stopped => stopped := by
  induction m generalizing s with
  | zero => rw [Nat.zero_add, cycles]
  | succ m ih =>
    rw [Nat.succ_add, cycles, cycles]
    rcases s.cycle with ⟨_ | r, s₁⟩
    · exact ih s₁
    · rfl

/-- Cycles that have stopped are not followed by others. -/
theorem cycles_of_stopped (h : s.cycles k = (some r, s')) (hn : k ≤ n) :
    s.cycles n = (some r, s') := by
  obtain ⟨m, rfl⟩ := Nat.exists_eq_add_of_le hn
  rw [cycles_add, h]

/-- Cycles stop for a halt or a trap. -/
theorem ne_of_cycles (hs : s.machine.state = .running) (h : s.cycles n = (some r, s')) :
    r ≠ .completed ∧ r ≠ .budgetExhausted := by
  have hcomes := comesTo_cycles n hs
  rw [h] at hcomes
  constructor <;> rintro rfl <;> exact hcomes

/-! ## The loop -/

namespace Loops

theorem le (h : Loops (some n) executed s k r s') (hle : executed ≤ n) : k ≤ n := by
  induction h with
  | exhausted => exact hle
  | stops within => exact within n rfl
  | goesOn within _ _ ih => exact ih (within n rfl)

/-- A loop has one way to go. -/
theorem unique {budget : Option Nat} (h : Loops budget executed s k r s')
    (h' : Loops budget executed s k' r' s'') : k = k' ∧ r = r' ∧ s' = s'' := by
  induction h with
  | exhausted bounded reached =>
    cases h' with
    | exhausted => exact ⟨rfl, rfl, rfl⟩
    | stops within | goesOn within => exact absurd (within _ bounded) (Nat.not_lt.mpr reached)
  | stops within cycle =>
    cases h' with
    | exhausted bounded reached => exact absurd (within _ bounded) (Nat.not_lt.mpr reached)
    | stops _ cycle' =>
      obtain ⟨⟨rfl⟩, rfl⟩ := Prod.mk.inj (cycle.symm.trans cycle')
      exact ⟨rfl, rfl, rfl⟩
    | goesOn _ cycle' => cases (cycle.symm.trans cycle')
  | goesOn within cycle _ ih =>
    cases h' with
    | exhausted bounded reached => exact absurd (within _ bounded) (Nat.not_lt.mpr reached)
    | stops _ cycle' => cases (cycle.symm.trans cycle')
    | goesOn _ cycle' rest =>
      obtain ⟨-, rfl⟩ := Prod.mk.inj (cycle.symm.trans cycle')
      exact ih rest

/-- A loop with `n` cycles of its budget left makes `n` cycles, fewer if one stops. -/
theorem of_cycles (executed n : Nat) (s : Session δ) :
    ∃ k, Loops (some (executed + n)) executed s k ((s.cycles n).1.getD .budgetExhausted)
      (s.cycles n).2 := by
  induction n generalizing executed s with
  | zero => exact ⟨executed, .exhausted rfl (Nat.le_refl _)⟩
  | succ n ih =>
    have hwithin : ∀ limit, some (executed + (n + 1)) = some limit → executed < limit := by
      rintro limit ⟨rfl⟩
      omega
    rw [cycles]
    rcases hc : s.cycle with ⟨_ | r, s₁⟩
    · obtain ⟨k, hk⟩ := ih (executed + 1) s₁
      rw [Nat.add_right_comm] at hk
      exact ⟨k, .goesOn hwithin hc hk⟩
    · exact ⟨executed + 1, .stops hwithin hc⟩

/-- A loop without a budget ends at the first cycle that stops, after cycles that go on. -/
theorem cycles_of_unbounded (h : Loops none executed s k r s') :
    ∃ n, k = executed + (n + 1) ∧ s.cycles (n + 1) = (some r, s') ∧
      ∀ m ≤ n, (s.cycles m).1 = none := by
  induction h with
  | exhausted bounded => cases bounded
  | stops _ cycle =>
    refine ⟨0, rfl, by rw [cycles, cycle], fun m hm => ?_⟩
    rw [Nat.le_zero.mp hm, cycles]
  | @goesOn executed k s s₁ s' r _ cycle _ ih =>
    obtain ⟨n, rfl, hstops, hgoes⟩ := ih
    refine ⟨n + 1, by omega, by rw [cycles, cycle]; exact hstops, fun m hm => ?_⟩
    rcases m with _ | m
    · rw [cycles]
    · rw [cycles, cycle]
      exact hgoes m (by omega)

/-- Cycles that stop are a run without a budget. -/
theorem unbounded_of_cycles (executed : Nat) (h : s.cycles n = (some r, s')) :
    ∃ k ≤ executed + n, Loops none executed s k r s' := by
  induction n generalizing executed s with
  | zero => cases h
  | succ n ih =>
    rw [cycles] at h
    rcases hc : s.cycle with ⟨_ | q, s₁⟩ <;> rw [hc] at h
    · obtain ⟨k, hk, hl⟩ := ih (executed + 1) h
      exact ⟨k, by omega, .goesOn (by simp) hc hl⟩
    · obtain ⟨⟨rfl⟩, rfl⟩ := Prod.mk.inj h
      exact ⟨executed + 1, by omega, .stops (by simp) hc⟩

end Loops

/-! ## Steps and runs -/

theorem step_of_running (hs : s.machine.state = .running) (n : Nat) :
    s.step n = (.ok ((s.cycles n).1.getD .completed), (s.cycles n).2) := by
  rw [step, if_pos hs]

theorem run_of_running (hs : s.machine.state = .running) (budget : Option Nat) :
    s.run budget = (.ok ((s.cycles (budget.getD cycleLimit)).1.getD .budgetExhausted),
      (s.cycles (budget.getD cycleLimit)).2) := by
  rw [run, if_pos hs]

/-- A run with a budget is as many steps, named as a run. -/
theorem run_eq_step (hs : s.machine.state = .running) (n : Nat) :
    s.run (some n) = ((s.step n).1.map .ofRun, (s.step n).2) := by
  rw [run_of_running hs, step_of_running hs]
  rcases hc : s.cycles n with ⟨_ | r, s'⟩
  · rw [Option.getD_some, hc]
    rfl
  · rw [Option.getD_some, hc]
    exact congrArg (Except.ok ·, s') (StopReason.ofRun_of_ne (ne_of_cycles hs hc).1).symm

/-- Steps come one after another, up to the one that stops. -/
theorem step_add (hs : s.machine.state = .running) (m n : Nat) :
    s.step (m + n) = match s.step m with
      | (.ok .completed, s₁) => s₁.step n
      | stopped => stopped := by
  rw [step_of_running hs, step_of_running hs, cycles_add]
  have hcomes := comesTo_cycles m hs
  rcases hc : s.cycles m with ⟨_ | r, s₁⟩ <;> rw [hc] at hcomes
  · exact (step_of_running hcomes n).symm
  · cases r
    case completed => exact absurd rfl (ne_of_cycles hs hc).1
    all_goals rfl

/-- A run is its loop, which makes no more cycles than the budget. -/
theorem run_some_iff (hs : s.machine.state = .running) (n : Nat) (r : StopReason)
    (s' : Session δ) : s.run (some n) = (.ok r, s') ↔ ∃ k ≤ n, Loops (some n) 0 s k r s' := by
  obtain ⟨k, hk⟩ := Loops.of_cycles 0 n s
  rw [Nat.zero_add] at hk
  rw [run_of_running hs, Option.getD_some]
  constructor
  · intro h
    obtain ⟨⟨rfl⟩, rfl⟩ := Prod.mk.inj h
    exact ⟨k, hk.le n.zero_le, hk⟩
  · rintro ⟨k', -, hk'⟩
    obtain ⟨-, rfl, rfl⟩ := hk.unique hk'
    rfl

theorem run_of_loop (hs : s.machine.state = .running) (h : Loops none 0 s k r s') (hn : k ≤ n) :
    s.run (some n) = (.ok r, s') := by
  obtain ⟨m, rfl, hstops, -⟩ := h.cycles_of_unbounded
  rw [run_of_running hs, Option.getD_some, cycles_of_stopped hstops (by omega), Option.getD_some]

theorem run_of_short_loop (hs : s.machine.state = .running) (h : Loops none 0 s k r s')
    (hn : n < k) : (s.run (some n)).1 = .ok .budgetExhausted := by
  obtain ⟨m, rfl, -, hgoes⟩ := h.cycles_of_unbounded
  rw [run_of_running hs, Option.getD_some, hgoes n (by omega), Option.getD_none]

/-- Without a budget a run is the loop, up to the most cycles that are counted. -/
theorem run_none_iff (hs : s.machine.state = .running) (hr : r ≠ .budgetExhausted) :
    s.run none = (.ok r, s') ↔ ∃ k ≤ cycleLimit, Loops none 0 s k r s' := by
  constructor
  · intro h
    rw [run_of_running hs, Option.getD_none] at h
    rcases hc : s.cycles cycleLimit with ⟨_ | q, s₁⟩ <;> rw [hc] at h
    · obtain ⟨⟨rfl⟩, -⟩ := Prod.mk.inj h
      exact absurd rfl hr
    · obtain ⟨⟨rfl⟩, rfl⟩ := Prod.mk.inj h
      obtain ⟨k, hk, hl⟩ := Loops.unbounded_of_cycles 0 hc
      exact ⟨k, by omega, hl⟩
  · rintro ⟨k, hk, hl⟩
    exact run_of_loop hs hl hk

/-- A step and a run from a session are the same cycles under two names. -/
structure StepsAsRuns (s : Session δ) : Prop where
  run_some : ∀ n, s.run (some n) = ((s.step n).1.map .ofRun, (s.step n).2)
  named : ∀ n, (s.step n).1 ≠ .ok .budgetExhausted ∧ ∀ budget, (s.run budget).1 ≠ .ok .completed
  step_add : ∀ m n, s.step (m + n) = match s.step m with
    | (.ok .completed, s₁) => s₁.step n
    | stopped => stopped
  loop : ∀ n r s', s.run (some n) = (.ok r, s') ↔ ∃ k ≤ n, Loops (some n) 0 s k r s'
  run_none : ∀ r s', r ≠ .budgetExhausted →
    (s.run none = (.ok r, s') ↔ ∃ k ≤ cycleLimit, Loops none 0 s k r s')
  within : ∀ k r s', Loops none 0 s k r s' → ∀ n ≥ k, s.run (some n) = (.ok r, s')
  short : ∀ k r s', Loops none 0 s k r s' → ∀ n < k, (s.run (some n)).1 = .ok .budgetExhausted

theorem named_of_running (hs : s.machine.state = .running) (n : Nat) :
    (s.step n).1 ≠ .ok .budgetExhausted ∧ ∀ budget, (s.run budget).1 ≠ .ok .completed := by
  constructor
  · rw [step_of_running hs]
    rcases hc : s.cycles n with ⟨_ | r, s'⟩
    · simp
    · simpa using (ne_of_cycles hs hc).2
  · intro budget
    rw [run_of_running hs]
    rcases hc : s.cycles (budget.getD cycleLimit) with ⟨_ | r, s'⟩
    · simp
    · simpa using (ne_of_cycles hs hc).1

/-- From every running session, steps and runs of all lengths agree. -/
theorem steps_and_runs (hs : s.machine.state = .running) : s.StepsAsRuns where
  run_some := run_eq_step hs
  named := named_of_running hs
  step_add := step_add hs
  loop := run_some_iff hs
  run_none _ _ := run_none_iff hs
  within _ _ _ h _ := run_of_loop hs h
  short _ _ _ h _ := run_of_short_loop hs h

/-- A default machine whose second instruction halts. -/
def ofHalting : Session Empty :=
  ((⟨.create {}, #[]⟩ : Session Empty).reset.perform
    (.hostStore 4 .word ((InstructionWord.pack 3 15 0 7 0 0).setWidth 64))).2

theorem ofHalting_steps_and_runs : ofHalting.StepsAsRuns ∧
    (ofHalting.run (some 1)).1 = .ok .budgetExhausted ∧
    (ofHalting.run (some 2)).1 = .ok .halted ∧ (ofHalting.step 3).1 = .ok .halted :=
  ⟨steps_and_runs (by rfl), by rfl, by rfl, by rfl⟩

end Session

end Processor64
