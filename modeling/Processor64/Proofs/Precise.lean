import Processor64.Proofs.Ending

/-!
# Precise traps

A cycle that traps leaves general registers, memory and devices as they were before it, and of the
translation buffer and the counts only what a trap is recorded in has moved (`cycle_precise`). A
machine that stops can be resumed at the instruction that trapped, or after it if that asked for
its trap; a machine that goes on in the handler finds the trap in the control registers for it, and
the others untouched.
-/

namespace Processor64

variable {δ : Type}

namespace Session

/-- What a cycle that ended in a trap has left of a session, and how the machine goes on: it
stops, or without a reason to stop it has entered the handler. -/
structure Precise (s : Session δ) (t : Trap) (stop : Option StopReason) (s' : Session δ) :
    Prop where
  generals : s'.machine.registers.generals = s.machine.registers.generals
  memory : s'.machine.memory = s.machine.memory
  contents : s'.machine.tlb.contents = s.machine.tlb.contents
  counters : s'.machine.counters = { s.machine.counters.recordTrap t.code with
    cycles := s.machine.counters.cycles + 1
    trapsVectored := s.machine.counters.trapsVectored + if stop.isNone then 1 else 0 }
  reservation : s'.machine.registers.reservation = none
  lastTrap : s'.machine.lastTrap = some ⟨t, s.machine.registers.status.location⟩
  controls : ∀ n, (stop = none → n ∉ ControlRegister.ofTrap.map (·.number)) →
    s'.machine.registers.controlCell n = s.machine.registers.controlCell n
  delivered : stop = none → s.machine.settings.trapPolicy = .vector ∧
    s.machine.registers.control .vectorAddress ≠ 0
  stopped : stop ≠ none →
    stop = some (.trapped ⟨t, s.machine.registers.status.location⟩) ∧
      s'.machine.registers.status.status = s.machine.registers.status.status ∧
      s'.machine.registers.status.address =
        if t.code = .software then s.machine.registers.status.address + 4
        else s.machine.registers.status.address

/-- Whatever raises the trap, nothing of its instruction was committed. -/
theorem cycle_precise [Device δ] {s : Session δ} {t : Trap}
    (hd : ∀ d ∈ s.machine.memory.io.devices, ∃ c, d = .console c) (h : s.trap? = some t) :
    s.Precise t s.cycle.1 s.cycle.2 := by
  obtain ⟨s₁, he, hc⟩ := cycle_of_trap h
  obtain ⟨tlb, word, reservation, log, ht, rfl⟩ :=
    Exec.touched_of_instructionAt_error (s := s.begun) hd he
  rw [hc]
  rcases takeTrap_cases _ t s.machine.registers.status.address with
    ⟨controls, vector, hstop, hp, hv, hn, hm⟩ | ⟨hstop, hm⟩ <;> rw [hstop]
  · exact {
      generals := congrArg (·.registers.generals) hm
      memory := congrArg (·.memory) hm
      contents := (congrArg (·.tlb.contents) hm).trans ht
      counters := congrArg (·.counters) hm
      reservation := congrArg (·.registers.reservation) hm
      lastTrap := congrArg (·.lastTrap) hm
      controls := fun n hne => hn n (hne rfl)
      delivered := fun _ => ⟨hp, hv⟩
      stopped := fun h => absurd rfl h }
  · exact {
      generals := congrArg (·.registers.generals) hm
      memory := congrArg (·.memory) hm
      contents := (congrArg (·.tlb.contents) hm).trans ht
      counters := congrArg (·.counters) hm
      reservation := congrArg (·.registers.reservation) hm
      lastTrap := congrArg (·.lastTrap) hm
      controls := fun n _ => congrArg (·.registers.controlCell n) hm
      delivered := fun h => absurd h (by simp)
      stopped := fun _ =>
        ⟨rfl, congrArg (·.registers.status.status) hm, congrArg (·.registers.status.address) hm⟩ }

/-- A default machine that starts beyond its physical memory. -/
def astray : Session Empty :=
  ⟨(Machine.create { general := { startAddress := 0x100000 } }).reset, #[]⟩

theorem astray_precise : astray.trap? = some (.outsidePhysical 0x100000 .word) ∧
    astray.Precise (.outsidePhysical 0x100000 .word) astray.cycle.1 astray.cycle.2 :=
  have h : astray.trap? = some (.outsidePhysical 0x100000 .word) := by rfl
  ⟨h, cycle_precise (fun _ hd => ⟨_, List.mem_singleton.mp hd⟩) h⟩

end Session

end Processor64
