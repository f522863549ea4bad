import Processor64.Proofs.Steady

/-!
# The life of a machine

A machine waits for its first reset, runs, stops on a trap or is halted, and the requests of the
host lead from one to the other (`Session.Handled` says all that a request can do to the run). So
after any requests to a new machine the state of its run, what it last answered and its last trap
fit together (`Hosted.lawful`): what is answered depends on the state alone, a request that is
refused changes nothing, and a trapped machine stands at the instruction of its last trap until the
host sends it elsewhere.
-/

namespace Processor64

variable {δ α : Type}

/-! ## Traps and their counts -/

namespace Counters

theorem trapsOf_recordTrap (c : Counters) (code : TrapCode) :
    (c.recordTrap code).trapsOf code = c.trapsOf code + 1 := by
  simp [recordTrap, trapsOf]

theorem trapsOf_zero (code : TrapCode) : ({} : Counters).trapsOf code = 0 := by
  simp [trapsOf]

end Counters

namespace Machine

/-- There is a last trap exactly if a trap has been counted. -/
def Counted (m : Machine δ) : Prop :=
  m.lastTrap = none ↔ ∀ code, m.counters.trapsOf code = 0

variable {m n : Machine δ}

theorem Counted.congr (h : m.Counted) (hlast : n.lastTrap = m.lastTrap)
    (htraps : n.counters.traps = m.counters.traps) : n.Counted := by
  simpa only [Counted, Counters.trapsOf, hlast, htraps] using h

theorem counted_of_reset (hlast : m.lastTrap = none) (hcounters : m.counters = {}) :
    m.Counted := by
  rw [Counted, hcounters]
  exact ⟨fun _ => Counters.trapsOf_zero, fun _ => hlast⟩

theorem Records.counted {t : Trap} (h : m.Records t n) : n.Counted := by
  have hcount : n.counters.trapsOf t.code = m.counters.trapsOf t.code + 1 := by
    rw [← Counters.trapsOf_recordTrap, Counters.trapsOf, h.traps, Counters.trapsOf]
  refine ⟨fun hnone => ?_, fun hzero => ?_⟩
  · rw [h.lastTrap] at hnone
    cases hnone
  · rw [hzero] at hcount
    omega

/-- A cycle keeps the counters in accord with the last trap. -/
theorem Turn.counted {trap : Option Trap} {stop : Option StopReason} (h : m.Turn trap stop n)
    (hm : m.Counted) : n.Counted := by
  cases h with
  | goesOn _ completes => exact hm.congr completes.lastTrap completes.traps
  | halts _ completes => exact hm.congr completes.lastTrap completes.traps
  | delivers _ records => exact records.counted
  | stops _ records => exact records.counted

end Machine

theorem Session.counted_cycles [Device δ] : ∀ (n : Nat) {s : Session δ}, s.machine.Counted →
    (s.cycles n).2.machine.Counted
  | 0, _, h => h
  | n + 1, s, h => by
    have hnext := s.turn_cycle.counted h
    rw [cycles]
    rcases hc : s.cycle with ⟨_ | r, s'⟩ <;> rw [hc] at hnext
    · exact counted_cycles n hnext
    · exact hnext

/-! ## Requests -/

namespace Command

/-- The requests that run cycles, with what they answer if these all go on. -/
inductive Runs : Command δ → StopReason → Prop where
  | step (n : Nat) : Runs (.step n) .completed
  | run (budget : Option Nat) : Runs (.run budget) .budgetExhausted

/-- The requests that only reach registers, mappings, memory and devices. -/
def isAccess : Command δ → Bool
  | reset | step _ | run _ | resume | setProgramAddress _ => false
  | _ => true

end Command

/-- Whether the answer is about the run. -/
def Answer.isOfRun : Answer → Bool
  | stopped _ | refused _ => true
  | _ => false

namespace Session

/-- What a request to `s` may be answered, and what it may do to the run. -/
inductive Handled (s : Session δ) : Command δ → Answer → Session δ → Prop where
  | reset {s' : Session δ} (state : s'.machine.state = .running)
    (lastTrap : s'.machine.lastTrap = none) (counters : s'.machine.counters = {}) :
    s.Handled .reset .done s'
  | ran {c : Command δ} {stop : Option StopReason} {on : StopReason} {s' : Session δ}
    (runs : c.Runs on) (before : s.machine.state = .running) (comesTo : s'.machine.ComesTo stop)
    (counted : s.machine.Counted → s'.machine.Counted) :
    s.Handled c (.stopped (stop.getD on)) s'
  | notRun {c : Command δ} {on : StopReason} (runs : c.Runs on)
    (before : s.machine.state ≠ .running) :
    s.Handled c (.refused (.notRunning s.machine.state)) s
  | resumed {s' : Session δ} (before : s.machine.state = .trapped)
    (state : s'.machine.state = .running) (lastTrap : s'.machine.lastTrap = s.machine.lastTrap)
    (counters : s'.machine.counters = s.machine.counters) : s.Handled .resume .done s'
  | notResumed (before : s.machine.state ≠ .trapped) :
    s.Handled .resume (.refused (.notTrapped s.machine.state)) s
  | redirected (a : Word) :
    s.Handled (.setProgramAddress a) .done (s.mapMachine (·.setProgramAddress a))
  | accessed {c : Command δ} {answer : Answer} {s' : Session δ} (access : c.isAccess = true)
    (other : answer.isOfRun = false) (same : s.machine.SameRun s'.machine) :
    s.Handled c answer s'

theorem handled_answer {c : Command δ} {x : Exec δ α} {f : α → Answer} (hc : c.isAccess = true)
    (hf : ∀ v, (f v).isOfRun = false) (hx : Exec.Steady x) (s : Session δ) :
    s.Handled c (s.answer x f).1 (s.answer x f).2 := by
  unfold answer
  rcases h : x s with ⟨v, s'⟩ | ⟨t, s'⟩
  · exact .accessed hc (hf v) (hx.ok h)
  · exact .accessed hc rfl (hx.error h)

variable [Device δ]

/-- A run is handled as its command demands. -/
theorem handled_cycles {c : Command δ} {on : StopReason} {s : Session δ} (hc : c.Runs on) (n : Nat)
    (hs : s.machine.state = .running) :
    s.Handled c (.stopped ((s.cycles n).1.getD on)) (s.cycles n).2 :=
  .ran hc hs (comesTo_cycles n hs) (counted_cycles n)

/-- Every request does one of these. -/
theorem handled_perform (s : Session δ) (c : Command δ) :
    s.Handled c (s.perform c).1 (s.perform c).2 := by
  cases c
  case reset => exact .reset rfl rfl rfl
  case step n =>
    rw [perform, step]
    split
    · rename_i hs
      exact handled_cycles (.step n) n hs
    · rename_i hs
      exact .notRun (.step n) hs
  case run budget =>
    rw [perform, run]
    split
    · rename_i hs
      exact handled_cycles (.run budget) _ hs
    · rename_i hs
      exact .notRun (.run budget) hs
  case resume =>
    rw [perform, resume]
    by_cases hs : s.machine.state = .trapped
    · rw [if_pos hs]
      exact .resumed hs rfl rfl rfl
    · rw [if_neg hs]
      exact .notResumed hs
  case setProgramAddress a => exact .redirected a
  case setGeneral n v =>
    rcases h : s.machine.registers.setGeneralAt n v with t | r <;> simp only [perform, h]
    · exact .accessed rfl rfl (.refl _)
    · refine .accessed rfl rfl (.of_registers ?_)
      unfold Registers.setGeneralAt at h
      split at h
      · obtain rfl := Except.ok.inj h
        rw [Registers.status_setGeneral]
      · cases h
  case setControl n v =>
    rcases h : s.machine.registers.setControlAt n v with t | r <;> simp only [perform, h]
    · exact .accessed rfl rfl (.refl _)
    · refine .accessed rfl rfl (.of_registers ?_)
      unfold Registers.setControlAt at h
      split at h
      · obtain rfl := Except.ok.inj h
        rfl
      · cases h
  case load a w signed => exact handled_answer rfl (fun _ => rfl) (.load a w signed) s
  case store a w v => exact handled_answer rfl (fun _ => rfl) (.store a w v) s
  case fetch a => exact handled_answer rfl (fun _ => rfl) (.fetch a) s
  case translate a w k => exact handled_answer rfl (fun _ => rfl) (.translate a w k) s
  case hostStore p w v => exact handled_answer rfl (fun _ => rfl) (.hostStore p w v) s
  case readMemory p w signed => exact handled_answer rfl (fun _ => rfl) (.readMemory p w signed) s
  case previewMemory p w signed =>
    exact handled_answer rfl (fun _ => rfl) (.previewMemory p w signed) s
  case writeMemory p w v => exact handled_answer rfl (fun _ => rfl) (.writeMemory p w v) s
  case readPhysical | writePhysical | readIo | writeIo =>
    exact handled_answer rfl (fun _ => rfl) (.absorb _) s
  case loadPhysical p bytes =>
    rcases h : s.machine.memory.load p bytes with t | memory <;> simp only [perform, h]
    · exact .accessed rfl rfl (.refl _)
    · exact .accessed rfl rfl (.of_memory _ _)
  case installImage path bytes p =>
    simp only [perform, installImage]
    by_cases he : bytes.isEmpty
    · simp only [he, if_true]
      exact .accessed rfl rfl (.refl _)
    · rcases h : s.machine.memory.load p bytes with t | memory <;>
        simp only [he, Bool.false_eq_true, if_false, machine_emit, h]
      · exact .accessed rfl rfl (.refl _)
      · exact .accessed rfl rfl (.of_memory _ _)
  case attach | pushInput | takeOutput => exact .accessed rfl rfl (.of_memory _ _)

/-! ## Histories -/

/-- The sessions that a new machine is led to, each with the requests so far and their answers.
The host may also do as it likes with the memory. -/
inductive Hosted : List (Command δ × Answer) → Session δ → Prop where
  | create {c : Config} {s : Session δ} (h : create c = .ok s) : Hosted [] s
  | perform {h : List (Command δ × Answer)} {s : Session δ} (hh : Hosted h s) (c : Command δ) :
    Hosted (h ++ [(c, (s.perform c).1)]) (s.perform c).2
  | memory {h : List (Command δ × Answer)} {s : Session δ} (hh : Hosted h s)
    (memory : Memory δ) : Hosted h (s.mapMachine fun m => { m with memory := memory })

end Session

/-- The answer to a step or a run tells where the run is. -/
structure StopReason.Tells (r : StopReason) (m : Machine δ) : Prop where
  halted : r = .halted ↔ m.state = .halted
  trapped : ∀ t, r = .trapped t ↔ m.state = .trapped ∧ m.lastTrap = some t
  running : r = .completed ∨ r = .budgetExhausted ↔ m.state = .running

/-- The next instruction is that of the trap, or the one after it if it asked for the trap. -/
def Machine.StandsAt (m : Machine δ) (r : TrapRecord) : Prop :=
  m.registers.status.address.toNat =
    (r.address.toNat + if r.trap.code = .software then 4 else 0) % 2 ^ 52

theorem Machine.standsAt_of_resumption {m : Machine δ} {r : TrapRecord}
    (h : m.registers.status.address = r.trap.resumption (r.address.extractLsb' 0 52)) :
    m.StandsAt r := by
  rw [StandsAt, h, Trap.resumption]
  by_cases hc : r.trap.code = .software
  · rw [if_pos hc, if_pos hc, BitVec.toNat_add, BitVec.extractLsb'_toNat, Nat.shiftRight_zero]
    exact Nat.mod_add_mod _ _ _
  · rw [if_neg hc, if_neg hc, BitVec.extractLsb'_toNat, Nat.shiftRight_zero, Nat.add_zero]

/-- A trapped machine has stopped on its last trap, with no later stop in its history, and still
stands there if it has not been sent elsewhere since then. -/
def Machine.StoppedIn (m : Machine δ) (h : List (Command δ × Answer)) : Prop :=
  ∃ before c r since, h = before ++ (c, .stopped (.trapped r)) :: since ∧
    m.lastTrap = some r ∧ (∀ e ∈ since, ∀ q, e.2 ≠ .stopped q) ∧
    ((∀ e ∈ since, ∀ a, e.1 ≠ .setProgramAddress a) → m.StandsAt r)

theorem Machine.StoppedIn.extend {m n : Machine δ} {h : List (Command δ × Answer)}
    {e : Command δ × Answer} (hm : m.StoppedIn h) (he : ∀ q, e.2 ≠ .stopped q)
    (hlast : n.lastTrap = m.lastTrap)
    (haddress : (∀ a, e.1 ≠ .setProgramAddress a) →
      n.registers.status.address = m.registers.status.address) : n.StoppedIn (h ++ [e]) := by
  obtain ⟨before, c, r, since, rfl, hr, hstop, hstands⟩ := hm
  refine ⟨before, c, r, since ++ [e], by simp, hlast.trans hr, ?_, ?_⟩
  · intro d hd
    rcases List.mem_append.mp hd with hd | hd
    · exact hstop d hd
    · rw [List.mem_singleton.mp hd]
      exact he
  · intro hall
    have hm := hstands fun d hd => hall d (List.mem_append_left _ hd)
    rwa [StandsAt, haddress (hall e (by simp))]

namespace Session

/-- The state of the run, the answers about it, its last trap and its history fit together. -/
structure Lawful [Device δ] (s : Session δ) (h : List (Command δ × Answer)) : Prop where
  reset : s.machine.state = .reset ↔ ∀ e ∈ h, e.1 ≠ .reset
  step : ∀ n, (∃ r, (s.perform (.step n)).1 = .stopped r) ↔ s.machine.state = .running
  run : ∀ b, (∃ r, (s.perform (.run b)).1 = .stopped r) ↔ s.machine.state = .running
  resume : (s.perform .resume).1 = .done ↔ s.machine.state = .trapped
  refused : ∀ c e, (s.perform c).1 = .refused e → (s.perform c).2 = s
  stopped : ∀ c r, (s.perform c).1 = .stopped r → r.Tells (s.perform c).2.machine
  halted : s.machine.state = .halted → ∀ c, c ≠ .reset → (s.perform c).2.machine.state = .halted
  lastTrap : s.machine.lastTrap = none ↔ ∀ code, s.machine.counters.trapsOf code = 0
  trapped : s.machine.state = .trapped → s.machine.StoppedIn h

variable {s s' : Session δ} {c : Command δ} {answer : Answer} {h : List (Command δ × Answer)}

/-! ## What one request does -/

namespace Handled

/-- Only a running machine is run. -/
theorem stopped_iff {on : StopReason} (hh : s.Handled c answer s') (hc : c.Runs on) :
    (∃ r, answer = .stopped r) ↔ s.machine.state = .running := by
  cases hh with
  | reset | resumed | notResumed | redirected => cases hc
  | ran _ before => exact ⟨fun _ => before, fun _ => ⟨_, rfl⟩⟩
  | notRun _ before => simp [before]
  | accessed access => cases hc <;> cases access

/-- Only a trapped machine is resumed. -/
theorem done_iff (hh : s.Handled .resume answer s') :
    answer = .done ↔ s.machine.state = .trapped := by
  cases hh with
  | ran runs | notRun runs => cases runs
  | resumed before => exact ⟨fun _ => before, fun _ => rfl⟩
  | notResumed before => simp [before]
  | accessed access => cases access

/-- A refused request changes nothing. -/
theorem eq_of_refused {e : HostError} (hh : s.Handled c (.refused e) s') : s' = s := by
  cases hh with
  | notRun | notResumed => rfl
  | accessed _ other => cases other

theorem tells {r : StopReason} (hh : s.Handled c (.stopped r) s') : r.Tells s'.machine := by
  cases hh with
  | @ran _ stop _ _ runs _ comesTo =>
    rcases stop with _ | stop
    · -- no cycle gave a reason to stop, so the answer is that of the request
      have hstate : s'.machine.state = .running := comesTo
      cases runs <;> exact ⟨by simp [hstate], by simp [hstate], by simp [hstate]⟩
    · cases stop with
      | halted =>
        have hstate : s'.machine.state = .halted := comesTo
        exact ⟨by simp [hstate], by simp [hstate], by simp [hstate]⟩
      | trapped t =>
        obtain ⟨hstate, hlast, -⟩ := comesTo
        exact ⟨by simp [hstate], by simp [hstate, hlast], by simp [hstate]⟩
      | completed | budgetExhausted => exact absurd comesTo id
  | accessed _ other => cases other

/-- A halted machine stays halted until it is reset. -/
theorem halted (hh : s.Handled c answer s') (hs : s.machine.state = .halted) (hc : c ≠ .reset) :
    s'.machine.state = .halted := by
  cases hh with
  | reset => exact absurd rfl hc
  | ran _ before | resumed before => simp [hs] at before
  | notRun | notResumed | redirected => exact hs
  | accessed _ _ same => exact same.state.trans hs

theorem reset_iff (hh : s.Handled c answer s') :
    s'.machine.state = .reset ↔ s.machine.state = .reset ∧ c ≠ .reset := by
  cases hh with
  | reset state => simp [state]
  | @ran _ stop _ _ runs before comesTo =>
    have hne : s'.machine.state ≠ .reset := by
      intro hreset
      rcases stop with _ | _ | _ | _ | _ <;> simp [Machine.ComesTo, hreset] at comesTo
    simp [hne, before]
  | notRun runs => cases runs <;> simp
  | resumed before state => simp [state, before]
  | notResumed | redirected => simp [Machine.setProgramAddress]
  | accessed access _ same =>
    have hc : c ≠ .reset := by
      rintro rfl
      cases access
    simp [same.state, hc]

theorem counted (hh : s.Handled c answer s') (hs : s.machine.Counted) : s'.machine.Counted := by
  cases hh with
  | reset _ lastTrap counters => exact Machine.counted_of_reset lastTrap counters
  | ran _ _ _ counted => exact counted hs
  | notRun | notResumed => exact hs
  | resumed _ _ lastTrap counters => exact hs.congr lastTrap (by rw [counters])
  | redirected => exact hs.congr rfl rfl
  | accessed _ _ same => exact hs.congr same.lastTrap same.traps

/-- A request that leaves the machine trapped has stopped it, or has found it so and at most sent it
elsewhere. -/
theorem stoppedIn (hh : s.Handled c answer s')
    (hs : s.machine.state = .trapped → s.machine.StoppedIn h)
    (ht : s'.machine.state = .trapped) : s'.machine.StoppedIn (h ++ [(c, answer)]) := by
  cases hh with
  | reset state | resumed _ state => simp [ht] at state
  | @ran _ stop _ _ _ _ comesTo =>
    -- of all ways to end only a trap leaves the machine trapped, and that is its last stop
    rcases stop with _ | stop
    · simp [Machine.ComesTo, ht] at comesTo
    · cases stop with
      | trapped r =>
        obtain ⟨-, hlast, haddress⟩ := comesTo
        exact ⟨h, c, r, [], rfl, hlast, by simp,
          fun _ => Machine.standsAt_of_resumption haddress⟩
      | _ => simp [Machine.ComesTo, ht] at comesTo
  | notRun => exact (hs ht).extend (by simp) rfl fun _ => rfl
  | notResumed before => exact absurd ht before
  | redirected a => exact (hs ht).extend (by simp) rfl fun hne => absurd rfl (hne a)
  | accessed _ other same =>
    refine (hs (same.state.symm.trans ht)).extend ?_ same.lastTrap fun _ => same.address
    rintro q rfl
    cases other

end Handled

/-! ## What a history does -/

variable [Device δ]

theorem Hosted.reset_iff (hh : Hosted h s) :
    s.machine.state = .reset ↔ ∀ e ∈ h, e.1 ≠ .reset := by
  induction hh with
  | create hc => simp [(create_eq_ok hc).2, Machine.create]
  | @perform h s hh c ih =>
    simp only [(s.handled_perform c).reset_iff, ih, List.mem_append, List.mem_singleton,
      or_imp, forall_and, forall_eq]
  | memory _ _ ih => exact ih

theorem Hosted.counted (hh : Hosted h s) : s.machine.Counted := by
  induction hh with
  | create hc =>
    rw [(create_eq_ok hc).2]
    exact Machine.counted_of_reset rfl rfl
  | @perform h s hh c ih => exact (s.handled_perform c).counted ih
  | memory _ _ ih => exact ih

theorem Hosted.stoppedIn (hh : Hosted h s) (ht : s.machine.state = .trapped) :
    s.machine.StoppedIn h := by
  induction hh with
  | create hc => simp [(create_eq_ok hc).2, Machine.create] at ht
  | @perform h s hh c ih => exact (s.handled_perform c).stoppedIn ih ht
  | memory _ _ ih => exact ih ht

/-- Whatever the host has done, all that a machine tells about its run fits together. -/
theorem Hosted.lawful (hh : Hosted h s) : s.Lawful h where
  reset := hh.reset_iff
  step n := (s.handled_perform (.step n)).stopped_iff (.step n)
  run b := (s.handled_perform (.run b)).stopped_iff (.run b)
  resume := (s.handled_perform .resume).done_iff
  refused c e he := by
    have hc := s.handled_perform c
    rw [he] at hc
    exact hc.eq_of_refused
  stopped c r hr := by
    have hc := s.handled_perform c
    rw [hr] at hc
    exact hc.tells
  halted hs c hc := (s.handled_perform c).halted hs hc
  lastTrap := hh.counted
  trapped := hh.stoppedIn

/-- A new machine that starts just beyond its memory. -/
def ofBeyond : Session Empty where
  machine := .create { general := { startAddress := 0x100000 } }
  log := #[.deviceAttached "CONSOLE" 0xF0001000 8]

theorem ofBeyond_lawful : (ofBeyond.perform .reset).2.Lawful [(.reset, .done)] ∧
    ((ofBeyond.perform .reset).2.perform (.step 5)).2.Lawful [(.reset, .done),
      (.step 5, .stopped (.trapped ⟨.outsidePhysical 0x100000 .word, 0x100000⟩))] ∧
    ((ofBeyond.perform .reset).2.perform (.step 5)).2.machine.state = .trapped :=
  have hreset : Hosted [(.reset, .done)] (ofBeyond.perform .reset).2 :=
    .perform (.create (c := { general := { startAddress := 0x100000 } }) rfl) .reset
  ⟨hreset.lawful, (hreset.perform (.step 5)).lawful, by rfl⟩

end Session

end Processor64
