import Processor64.Proofs.Steady

/-!
# Progress between traps

A trap of the first instruction of a handler is not delivered but stops the machine. So no two
cycles in a row deliver a trap, and of any cycles that all go on, each of which completes an
instruction or delivers a trap, at least half complete one (`step_progresses`).

What bounds the deliveries is the handler that has been entered and has not completed an
instruction (`Machine.entering`): a delivery needs that there is none and leaves one, and only
a completed instruction clears it (`counts_cycles`).
-/

namespace Processor64

variable {δ : Type}

namespace Machine

/-- The number of handlers that have been entered and have not completed an instruction, at most
one. -/
def entering (m : Machine δ) : Nat := if m.handlerEntry.isSome then 1 else 0

theorem entering_le (m : Machine δ) : m.entering ≤ 1 := by
  unfold entering
  split <;> omega

theorem entering_of_none {m : Machine δ} (h : m.handlerEntry = none) : m.entering = 0 := by
  rw [entering, h]
  rfl

theorem entering_of_some {m : Machine δ} {v : Word} (h : m.handlerEntry = some v) :
    m.entering = 1 := by
  rw [entering, h]
  rfl

/-- From `m` to `n` so many instructions have completed and so many traps have been delivered. -/
structure Counts (m n : Machine δ) (completed delivered : Nat) : Prop where
  cycles : n.counters.cycles = m.counters.cycles + (completed + delivered)
  retired : n.counters.retired = m.counters.retired + completed
  trapsVectored : n.counters.trapsVectored = m.counters.trapsVectored + delivered
  bound : delivered + m.entering ≤ completed + n.entering

namespace Counts

variable {m n o : Machine δ} {completed delivered completed' delivered' : Nat}

theorem refl (m : Machine δ) : m.Counts m 0 0 := ⟨rfl, rfl, rfl, Nat.le_refl _⟩

theorem trans (h : m.Counts n completed delivered) (h' : n.Counts o completed' delivered') :
    m.Counts o (completed + completed') (delivered + delivered') where
  cycles := by
    rw [h'.cycles, h.cycles]
    omega
  retired := by rw [h'.retired, h.retired, Nat.add_assoc]
  trapsVectored := by rw [h'.trapsVectored, h.trapsVectored, Nat.add_assoc]
  bound := by
    have hfirst := h.bound
    have hsecond := h'.bound
    omega

end Counts

/-- A turn that goes on completes an instruction or delivers a trap. -/
theorem Turn.counts {m n : Machine δ} {trap : Option Trap} (h : m.Turn trap none n) :
    ∃ completed delivered, m.Counts n completed delivered ∧ completed + delivered = 1 := by
  cases h with
  | goesOn _ completes =>
    refine ⟨1, 0, ⟨completes.cycles, completes.retired, completes.trapsVectored, ?_⟩, rfl⟩
    have hle := m.entering_le
    omega
  | delivers _ records handlerEntry entered trapsVectored =>
    -- no handler was entered before and one is now, which pays for the delivery
    obtain ⟨v, hv, -⟩ := entered
    refine ⟨0, 1, ⟨records.cycles, records.retired, trapsVectored, ?_⟩, rfl⟩
    have hbefore := entering_of_none handlerEntry
    have hafter := entering_of_some hv
    omega

end Machine

variable [Device δ]

namespace Session

theorem counts_cycles : ∀ (n : Nat) {s : Session δ}, (s.cycles n).1 = none →
    ∃ completed delivered, s.machine.Counts (s.cycles n).2.machine completed delivered ∧
      completed + delivered = n
  | 0, s, _ => ⟨0, 0, .refl s.machine, rfl⟩
  | n + 1, s, h => by
    have hturn := s.turn_cycle
    rw [cycles] at h ⊢
    rcases hc : s.cycle with ⟨_ | r, s'⟩ <;> rw [hc] at h hturn
    · obtain ⟨completed, delivered, hfirst, hone⟩ := hturn.counts
      obtain ⟨completed', delivered', hrest, hn⟩ := counts_cycles n h
      exact ⟨_, _, hfirst.trans hrest, by omega⟩
    · simp at h

/-- The next cycle delivers its trap to the handler. -/
def Delivers (s : Session δ) : Prop := s.trap? ≠ none ∧ s.cycle.1 = none

/-- A trap of the next cycle stops the machine. -/
structure StopsOn (s : Session δ) (t : Trap) : Prop where
  stop : s.cycle.1 = some (.trapped ⟨t, s.machine.registers.status.location⟩)
  state : s.cycle.2.machine.state = .trapped
  trapsVectored : s.cycle.2.machine.counters.trapsVectored = s.machine.counters.trapsVectored

/-- A handler has just been entered, whose first instruction cannot be left to another handler. -/
structure AtHandler (s : Session δ) : Prop where
  entered : ∃ vector, s.machine.handlerEntry = some vector ∧
    s.machine.registers.status = .atStart vector
  not_delivers : ¬ s.Delivers
  stops : ∀ t, s.trap? = some t → s.StopsOn t

theorem stopsOn_of_handlerEntry {s : Session δ} {t : Trap} (he : s.machine.handlerEntry ≠ none)
    (ht : s.trap? = some t) : s.StopsOn t := by
  have hturn := s.turn_cycle
  rw [ht] at hturn
  rcases hc : s.cycle with ⟨stop, s'⟩
  rw [hc] at hturn
  dsimp only at hturn
  cases hturn with
  | delivers _ _ handlerEntry => exact absurd handlerEntry he
  | stops state _ trapsVectored => exact ⟨by rw [hc], by rw [hc, state], by rw [hc, trapsVectored]⟩

theorem atHandler_of_delivers {s : Session δ} (h : s.Delivers) : s.cycle.2.AtHandler := by
  obtain ⟨ht, hc⟩ := h
  obtain ⟨t, ht⟩ := Option.ne_none_iff_exists'.mp ht
  have hturn := s.turn_cycle
  rw [ht, hc] at hturn
  cases hturn with
  | delivers _ _ _ entered _ =>
    obtain ⟨v, hv, hstatus⟩ := entered
    have hentry : s.cycle.2.machine.handlerEntry ≠ none := by simp [hv]
    refine ⟨⟨v, hv, hstatus⟩, ?_, fun t => stopsOn_of_handlerEntry hentry⟩
    rintro ⟨hu, hgoes⟩
    obtain ⟨u, hu⟩ := Option.ne_none_iff_exists'.mp hu
    have hstop := (stopsOn_of_handlerEntry hentry hu).stop
    rw [hgoes] at hstop
    cases hstop

/-- A step that is completed has gone on for `n` cycles, each of which has completed an instruction
or delivered a trap, and at most one more of them has delivered one. -/
structure Progresses (s : Session δ) (n : Nat) (s' : Session δ) : Prop where
  state : s'.machine.state = .running
  cycles : s'.machine.counters.cycles = s.machine.counters.cycles + n
  counts : ∃ completed delivered,
    s'.machine.counters.retired = s.machine.counters.retired + completed ∧
    s'.machine.counters.trapsVectored = s.machine.counters.trapsVectored + delivered ∧
    completed + delivered = n ∧ delivered ≤ completed + 1 ∧ n / 2 ≤ completed

theorem progresses_cycles {s : Session δ} {n : Nat} (hs : s.machine.state = .running)
    (h : (s.cycles n).1 = none) : s.Progresses n (s.cycles n).2 := by
  have hstate := comesTo_cycles n hs
  rw [h] at hstate
  obtain ⟨completed, delivered, hcounts, hn⟩ := counts_cycles n h
  have hbound := hcounts.bound
  have hle := (s.cycles n).2.machine.entering_le
  refine ⟨hstate, by rw [hcounts.cycles, hn], completed, delivered, hcounts.retired,
    hcounts.trapsVectored, hn, ?_, ?_⟩ <;> omega

/-- From any running state, a completed step has made progress in at least half of its cycles, and a
handler that has been entered completes an instruction or stops the machine. -/
theorem step_progresses {s : Session δ} (hs : s.machine.state = .running) :
    (∀ n, (s.step n).1 = .ok .completed → s.Progresses n (s.step n).2) ∧
      (s.Delivers → s.cycle.2.AtHandler) := by
  refine ⟨fun n hn => ?_, atHandler_of_delivers⟩
  have hcomes := comesTo_cycles n hs
  rw [step, if_pos hs] at hn ⊢
  rcases hc : s.cycles n with ⟨_ | r, s'⟩
  · have hp := progresses_cycles hs (congrArg Prod.fst hc)
    rwa [hc] at hp
  · rw [hc] at hn hcomes
    cases hn
    exact absurd hcomes id

/-- Of three cycles two deliver the trap of the same load, and between them its handler returns. -/
theorem ofStray_progresses : (ofStray.step 3).1 = .ok .completed ∧ ofStray.Delivers ∧
    ofStray.Progresses 3 (ofStray.step 3).2 ∧ ofStray.cycle.2.AtHandler ∧
    (ofStray.step 3).2.machine.counters.retired = 1 ∧
    (ofStray.step 3).2.machine.counters.trapsVectored = 2 := by
  have hstep : (ofStray.step 3).1 = .ok .completed := by rfl
  have hdelivers : ofStray.Delivers := ⟨by decide, by rfl⟩
  have h := step_progresses (s := ofStray) rfl
  exact ⟨hstep, hdelivers, h.1 3 hstep, h.2 hdelivers, by rfl, by rfl⟩

end Session

end Processor64
