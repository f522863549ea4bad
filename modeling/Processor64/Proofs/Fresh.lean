import Processor64.Proofs.Shape

/-!
# What a reset forgets

After a reset a machine is as a new one of its configuration would be that had its memory
(`Session.reset_forgets`). A reset sets everything but the memory from the settings and the number
of translation entries, and these no history changes.

Nor does the log remember: no computation looks at what has been reported before it
(`Exec.LogBlind`), so sessions with one machine answer alike and report the same from then on.
-/

namespace Processor64

variable {δ α β : Type}

namespace Session

/-- The session with an older log before its own. -/
def onto (s : Session δ) (log : Array Event) : Session δ := { s with log := log ++ s.log }

variable (s : Session δ) (log : Array Event)

@[simp]
theorem machine_onto : (s.onto log).machine = s.machine := rfl

@[simp]
theorem mapMachine_onto (f : Machine δ → Machine δ) :
    (s.onto log).mapMachine f = (s.mapMachine f).onto log := rfl

@[simp]
theorem emit_onto (es : List Event) : (s.onto log).emit es = (s.emit es).onto log := by
  have hlog : log ++ s.log ++ es = log ++ (s.log ++ es) := Array.ext' (by simp)
  rw [emit, emit, onto, onto, hlog]

@[simp]
theorem count_onto (f : Counters → Counters) : (s.onto log).count f = (s.count f).onto log := rfl

end Session

namespace Exec

/-- An older log stays before what the computation reports, and changes nothing else. -/
def LogBlind {α : Type} (x : Exec δ α) : Prop :=
  ∀ (s : Session δ) log, x (s.onto log) = match x s with
    | .ok a s => .ok a (s.onto log)
    | .error t s => .error t (s.onto log)

theorem LogBlind.bind {x : Exec δ α} {f : α → Exec δ β} (hx : LogBlind x)
    (hf : ∀ a, LogBlind (f a)) : LogBlind (x >>= f) := by
  intro s log
  have h := hx s log
  rcases hr : x s with ⟨a, s'⟩ | ⟨t, s'⟩ <;> rw [hr] at h
  · rw [bind_of_eq_ok h, bind_of_eq_ok hr]
    exact hf a s' log
  · rw [bind_eq_error.mpr (.inl h), bind_eq_error.mpr (.inl hr)]

theorem LogBlind.absorb (r : Except Trap (Reply (Memory δ) α)) : LogBlind (absorb r) := by
  intro s log
  rcases r with t | reply
  · rfl
  · have hs : (s.onto log).afterReply reply = (s.afterReply reply).onto log :=
      (s.mapMachine fun m => { m with memory := reply.after }).emit_onto log reply.events
    exact congrArg (EStateM.Result.ok reply.value) hs

/-- No step of a machine looks at what was reported before. -/
theorem stepwise_logBlind : Stepwise (δ := δ) LogBlind where
  pure _ _ _ := rfl
  bind := .bind
  throw _ _ _ := rfl
  machine _ _ := rfl
  mapRegisters _ _ _ := rfl
  count _ _ _ := rfl
  emit es s log := congrArg (EStateM.Result.ok ()) (s.emit_onto log es)
  askTlb _ _ _ _ := rfl
  absorb f _ s log := LogBlind.absorb (f s.machine.memory) s log

end Exec

namespace Session

/-! ## Cycles and requests with an older log -/

theorem answer_onto {x : Exec δ α} (hx : Exec.LogBlind x) (s : Session δ) (f : α → Answer)
    (log : Array Event) :
    (s.onto log).answer x f = ((s.answer x f).1, (s.answer x f).2.onto log) := by
  unfold answer
  rw [hx s log]
  rcases x s with ⟨v, s'⟩ | ⟨t, s'⟩ <;> rfl

theorem retire_onto (s : Session δ) (ia : BitVec 52) (flow : Flow) (log : Array Event) :
    (s.onto log).retire ia flow = ((s.retire ia flow).1, (s.retire ia flow).2.onto log) := by
  unfold retire
  simp only [mapMachine_onto, machine_onto, emit_onto]
  cases flow <;> dsimp only <;> split <;> simp only [mapMachine_onto, emit_onto]

theorem takeTrap_onto (s : Session δ) (t : Trap) (ia : BitVec 52) (log : Array Event) :
    (s.onto log).takeTrap t ia = ((s.takeTrap t ia).1, (s.takeTrap t ia).2.onto log) := by
  unfold takeTrap
  simp only [mapMachine_onto, machine_onto, emit_onto]
  split
  · split
    · simp only [deliver, mapMachine_onto, emit_onto]
    · rfl
  · rfl

variable [Device δ]

theorem cycle_onto (s : Session δ) (log : Array Event) :
    (s.onto log).cycle = (s.cycle.1, s.cycle.2.onto log) := by
  have h := Exec.stepwise_logBlind.instructionAt s.machine.registers.status.address s.begun log
  rcases hr : Exec.instructionAt s.machine.registers.status.address s.begun with
    ⟨flow, s'⟩ | ⟨t, s'⟩ <;> rw [hr] at h
  · rw [(cycle_of_ok hr).2, ← retire_onto]
    exact (cycle_of_ok (s := s.onto log) h).2
  · rw [(cycle_of_error hr).2, ← takeTrap_onto]
    exact (cycle_of_error (s := s.onto log) h).2

theorem cycles_onto (log : Array Event) : ∀ (n : Nat) (s : Session δ),
    (s.onto log).cycles n = ((s.cycles n).1, (s.cycles n).2.onto log)
  | 0, _ => rfl
  | n + 1, s => by
    rw [cycles, cycles, cycle_onto]
    rcases s.cycle with ⟨_ | r, s'⟩
    · exact cycles_onto log n s'
    · rfl

/-- No request of the host looks at what was reported before. -/
theorem perform_onto (s : Session δ) (c : Command δ) (log : Array Event) :
    (s.onto log).perform c = ((s.perform c).1, (s.perform c).2.onto log) := by
  have hx := Exec.stepwise_logBlind (δ := δ)
  cases c
  case reset => simp [perform, reset]
  case step n =>
    simp only [perform, step, machine_onto, cycles_onto]
    split <;> rfl
  case run budget =>
    simp only [perform, run, machine_onto, cycles_onto]
    split <;> rfl
  case resume =>
    simp only [perform, resume, machine_onto, mapMachine_onto, emit_onto]
    by_cases hs : s.machine.state = .trapped
    · simp only [hs, if_true]
    · simp only [hs, if_false]
  case setProgramAddress => rfl
  case setGeneral n v =>
    simp only [perform, machine_onto]
    rcases s.machine.registers.setGeneralAt n v with t | r <;> rfl
  case setControl n v =>
    simp only [perform, machine_onto]
    rcases s.machine.registers.setControlAt n v with t | r <;> rfl
  case load a w signed => exact answer_onto (hx.load a w signed) s _ log
  case store a w v => exact answer_onto (hx.store a v w) s _ log
  case fetch a => exact answer_onto (hx.fetch a) s _ log
  case translate a w k => exact answer_onto (hx.translate a w k) s _ log
  case hostStore p w v => exact answer_onto (hx.hostStore p v w) s _ log
  case readMemory p w signed => exact answer_onto (hx.readMemory p w signed) s _ log
  case previewMemory p w signed => exact answer_onto (hx.previewMemory p w signed) s _ log
  case writeMemory p w v => exact answer_onto (hx.writeMemory p v w) s _ log
  case readPhysical | writePhysical | readIo | writeIo =>
    exact answer_onto (.absorb _) s _ log
  case loadPhysical p bytes =>
    simp only [perform, machine_onto]
    rcases s.machine.memory.load p bytes with t | memory <;> rfl
  case installImage path bytes p =>
    simp only [perform, installImage, emit_onto, machine_onto]
    by_cases he : bytes.isEmpty
    · simp only [he, if_true]
    · simp only [he, Bool.false_eq_true, if_false]
      rcases (s.emit [.imageRead bytes.length]).machine.memory.load p bytes with t | memory
      · rfl
      · simp only [mapMachine_onto, emit_onto]
  case attach p => simp only [perform, attach, mapMachine_onto, emit_onto]
  case pushInput | takeOutput => rfl

theorem serveAll_onto (log : Array Event) (as : List (HostAction δ)) (s : Session δ) :
    (s.onto log).serveAll as = ((s.serveAll as).1, (s.serveAll as).2.onto log) := by
  induction as generalizing s with
  | nil => rfl
  | cons a as ih =>
    have hserve : (s.onto log).serve a = ((s.serve a).1, (s.serve a).2.onto log) := by
      cases a with
      | request c => exact s.perform_onto c log
      | memory f => rfl
    rw [serveAll, serveAll, hserve]
    dsimp only
    rw [ih]

/-- Sessions with one machine answer alike and report the same. -/
theorem serveAll_of_machine {s u : Session δ} (h : s.machine = u.machine)
    (as : List (HostAction δ)) :
    (s.serveAll as).1 = (u.serveAll as).1 ∧
      (s.serveAll as).2.machine = (u.serveAll as).2.machine ∧
      ∃ events, (s.serveAll as).2.log = s.log ++ events ∧
        (u.serveAll as).2.log = u.log ++ events := by
  have hsplit (v : Session δ) : v = Session.onto ⟨v.machine, #[]⟩ v.log := by simp [onto]
  rw [hsplit s, hsplit u, h, serveAll_onto, serveAll_onto]
  refine ⟨rfl, rfl, (Session.serveAll ⟨u.machine, #[]⟩ as).2.log, ?_, ?_⟩ <;> simp [onto]

/-! ## Resets -/

omit [Device δ] in
/-- A reset leaves what the settings, the number of translation entries and the memory tell. -/
theorem reset_congr {m n : Machine δ} (hsettings : m.settings = n.settings)
    (hcapacity : m.tlb.capacity = n.tlb.capacity) (hmemory : m.memory = n.memory) :
    m.reset = n.reset := by
  have htlb : m.tlb.reset.clearCounters = n.tlb.reset.clearCounters := by
    unfold Tlb.capacity at hcapacity
    rw [Tlb.reset, Tlb.reset, Tlb.clearCounters, Tlb.clearCounters, hcapacity]
  have hid : m.identification = n.identification := by
    rw [Machine.identification, Machine.identification, hcapacity]
  rw [Machine.reset, Machine.reset, htlb, hid, hsettings, hmemory]

/-- A reset makes a machine with any past the same as a new one that has been given its memory,
and neither touches that memory. From then on the two answer alike and report the same, whatever
the host does. -/
theorem reset_forgets {c : Config} {s₀ : Session δ} (h : create c = .ok s₀)
    (past : List (HostAction δ)) :
    let s := (s₀.serveAll past).2
    let fresh : Session δ :=
      ⟨{ (Machine.create c : Machine δ) with memory := s.machine.memory }, s₀.log⟩
    s.reset.machine = fresh.reset.machine ∧
      s.reset.machine.memory = s.machine.memory ∧
      fresh.reset.machine.memory = s.machine.memory ∧
      ∀ later : List (HostAction δ),
        (s.reset.serveAll later).1 = (fresh.reset.serveAll later).1 ∧
        (s.reset.serveAll later).2.machine = (fresh.reset.serveAll later).2.machine ∧
        ∃ events, (s.reset.serveAll later).2.log = s.reset.log ++ events ∧
          (fresh.reset.serveAll later).2.log = fresh.reset.log ++ events := by
  intro s fresh
  obtain ⟨hsettings, hcapacity⟩ := s₀.sameShape_serveAll past
  rw [(create_eq_ok h).2] at hsettings hcapacity
  have hreset : s.reset.machine = fresh.reset.machine :=
    reset_congr (m := s.machine) (n := fresh.machine) hsettings hcapacity rfl
  exact ⟨hreset, rfl, rfl, serveAll_of_machine hreset⟩

/-- A new machine with all defaults. -/
def ofNew : Session Empty where
  machine := .create {}
  log := #[.deviceAttached "CONSOLE" 0xF0001000 8]

/-- A register and a byte of memory are set, then two instructions run. -/
def errands : List (HostAction Empty) :=
  [.request .reset, .request (.setGeneral 1 7), .request (.writeMemory 0x100 .byte 5),
    .request (.step 2)]

theorem ofNew_reset_forgets :
    create {} = .ok ofNew ∧
    (ofNew.serveAll errands).1 = [.done, .done, .done, .stopped .completed] ∧
    (ofNew.serveAll errands).2.machine.registers.general 1 = 7 ∧
    (ofNew.serveAll errands).2.machine.counters.retired = 2 ∧
    (ofNew.serveAll errands).2.reset.machine =
      Machine.reset { (Machine.create {} : Machine Empty) with
        memory := (ofNew.serveAll errands).2.machine.memory } ∧
    (ofNew.serveAll errands).2.reset.machine.memory =
      (ofNew.serveAll errands).2.machine.memory :=
  have hforgets := reset_forgets (show create {} = .ok ofNew from rfl) errands
  ⟨rfl, by rfl, by rfl, by rfl, hforgets.1, hforgets.2.1⟩

end Session

end Processor64
