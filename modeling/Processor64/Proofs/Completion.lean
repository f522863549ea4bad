import Processor64.Proofs.Ending

/-!
# Instructions that complete

All that an instruction may have done when it completes is one of the cases of `Machine.Performs`,
and the cases follow the kinds of instructions (`performs_of_perform`). What holds of every
completed instruction is read off them, and what holds of every cycle that completes as well
(`performs_of_cycle`).
-/

namespace Processor64

variable {δ : Type} [Device δ]

/-- The instructions that change the mappings of the translation buffer. -/
def Instruction.isMapping : Instruction → Bool
  | tlbInsert .. | tlbPurge _ | tlbReset => true
  | _ => false

/-- What an instruction that completes does to a machine, and where execution continues. -/
inductive Machine.Performs (m : Machine δ) : Instruction → Flow → Machine δ → Prop where
  | calculation {i : Instruction} {o : Outcome} (access : i.isAccess = false)
    (comesTo : i.ComesTo (.ok o)) :
    m.Performs i o.flow
      { m with registers := m.registers.setGeneral o.register o.value }
  | read {i : Instruction} {w : Width} {r : Register} {x : MemoryOperand} {p v : Word}
    {signed : Bool} {reply : Reply (Memory δ) Word} (reads : i.read? = some (w, r, x))
    (replies : m.memory.read p w signed = .ok reply) :
    m.Performs i .next { m with
      tlb := (m.place (x.address m.registers) w .read).2
      memory := reply.after
      registers := m.registers.setGeneral r v
      counters := { m.counters with loads := m.counters.loads + 1 } }
  | store {w : Width} {r : Register} {x : MemoryOperand} {p : Word}
    {reply : Reply (Memory δ) Unit}
    (place : (m.place (x.address m.registers) w .write).1 = .ok p)
    (replies : m.memory.write p w (m.registers.general r) = .ok reply) :
    m.Performs (.store w r x) .next { m with
      tlb := (m.place (x.address m.registers) w .write).2
      memory := reply.after
      registers := m.registers.noteStore p w.bytes
      counters := { m.counters with stores := m.counters.stores + 1 } }
  | loadReserve {w : Width} {r : Register} {x : MemoryOperand} {p : Word}
    {reply : Reply (Memory δ) Word} (replies : m.memory.read p w false = .ok reply) :
    m.Performs (.loadReserve w r x) .next { m with
      tlb := (m.place (x.address m.registers) w .read).2
      memory := reply.after
      registers := (m.registers.reserve ⟨p, w.bytes, reply.value⟩).setGeneral r reply.value
      counters := { m.counters with loads := m.counters.loads + 1 } }
  | storeConditional {w : Width} {r : Register} {x : MemoryOperand} {p : Word}
    {reply : Reply (Memory δ) Unit}
    (place : (m.place (x.address m.registers) w .write).1 = .ok p)
    (reserved : m.registers.reservation.any (·.address == p) = true)
    (replies : m.memory.write p w (m.registers.general r) = .ok reply) :
    m.Performs (.storeConditional w r x) .next { m with
      tlb := (m.place (x.address m.registers) w .write).2
      memory := reply.after
      registers := m.registers.dropReservation.setGeneral r 1
      counters := { m.counters with stores := m.counters.stores + 1 } }
  | failedConditional {w : Width} {r : Register} {x : MemoryOperand} :
    m.Performs (.storeConditional w r x) .next { m with
      tlb := (m.place (x.address m.registers) w .write).2
      registers := m.registers.dropReservation.setGeneral r 0
      counters := { m.counters with conditionalFailures := m.counters.conditionalFailures + 1 } }
  | moveToControl {r : Register} {c : BitVec 4} :
    m.Performs (.moveToControl r c) .next
      { m with registers := m.registers.setControlCell c (m.registers.general r) }
  | physicalAddress {r b : Register} {v : Word} :
    m.Performs (.physicalAddress r b) .next { m with
      tlb := (m.tlb.resolve (m.registers.general b) m.accessContext).2
      registers := m.registers.setGeneral r v }
  | mapping {i : Instruction} {tlb : Tlb} (mapping : i.isMapping = true) :
    m.Performs i .next { m with tlb := tlb }
  | modifyStatus {on : Bool} {r : Register} {modes : BitVec 3} :
    m.Performs (.modifyStatus on r modes) .next { m with
      registers := { m.registers.setGeneral r (m.registers.status.status.setWidth 64) with
        status := m.registers.status.withModes modes on } }
  | returnFromTrap :
    m.Performs .returnFromTrap (.restore (.ofWord (m.registers.control .trapStatus))) m
  | halt : m.Performs .halt .halt m
  | diagnose {n : BitVec 3} : m.Performs (.diagnose n) .next m

namespace Exec

variable {word : InstructionWord} {ia : BitVec 52} {s s' : Session δ} {flow : Flow}
  {i : Instruction}

theorem performs_of_calculation (ha : i.isAccess = false) (hp : i.isPrivileged = false)
    (h : perform word ia i s = .ok flow s') : s.machine.Performs i flow s'.machine := by
  obtain ⟨f, hcomes, hf⟩ := perform_calculation (δ := δ) word ia ha hp
  have ho := hcomes s.machine.registers s.machine.tlb
  rw [hf] at h
  rcases hx : f s.machine.registers s.machine.tlb with t | o <;> rw [hx] at h ho
  · cases h
  · obtain ⟨rfl, rfl⟩ := EStateM.Result.ok.inj h
    exact .calculation ha ho

theorem performs_of_access (ha : i.isAccess = true) (h : perform word ia i s = .ok flow s') :
    s.machine.Performs i flow s'.machine := by
  rcases hr : i.read? with _ | ⟨w, r, x⟩
  · cases i <;> cases ha <;> cases hr
    case store.refl.refl w r x =>
      obtain ⟨p, reply, hp, hw, rfl, hs⟩ := perform_store h
      rw [hs]
      exact .store hp hw
    case loadReserve.refl.refl w r x =>
      obtain ⟨p, reply, -, hm, rfl, hs⟩ := perform_loadReserve h
      rw [hs]
      exact .loadReserve hm
    case storeConditional.refl.refl w r x =>
      obtain ⟨p, hp, rfl, ⟨hany, reply, hw, hs⟩ | ⟨-, hs⟩⟩ := perform_storeConditional_ok h <;>
        rw [hs]
      · exact .storeConditional hp hany hw
      · exact .failedConditional
  · obtain ⟨p, signed, reply, v, -, hm, rfl, hs⟩ := perform_read hr h
    rw [hs]
    exact .read hr hm

theorem performs_of_privileged (hi : i.isPrivileged = true)
    (h : perform word ia i s = .ok flow s') : s.machine.Performs i flow s'.machine := by
  cases i <;> cases hi
  case moveToControl r c =>
    obtain ⟨rfl, rfl⟩ := EStateM.Result.ok.inj h
    exact .moveToControl
  case physicalAddress r b =>
    simp only [perform, resolve, bind_eq_ok, general_apply, machine_apply, mapMachine_apply,
      ofExcept_eq_ok, result_apply, EStateM.Result.ok.injEq] at h
    obtain ⟨_, _, ⟨rfl, rfl⟩, v, _, ⟨_, _, ⟨rfl, rfl⟩, _, _, ⟨-, rfl⟩, -, rfl⟩, rfl, rfl⟩ := h
    exact .physicalAddress
  case tlbInsert r b a =>
    obtain ⟨rfl, rfl⟩ := EStateM.Result.ok.inj h
    exact .mapping rfl
  case tlbPurge b =>
    simp only [perform, tlbPurge, bind_eq_ok, general_apply, machine_apply, mapMachine_apply,
      ite_apply, EStateM.Result.ok.injEq] at h
    obtain ⟨_, _, ⟨rfl, rfl⟩, _, _, ⟨rfl, rfl⟩, _, _, ⟨-, rfl⟩, h⟩ := h
    split at h <;> obtain ⟨rfl, rfl⟩ := EStateM.Result.ok.inj h <;> exact .mapping rfl
  case tlbReset =>
    obtain ⟨rfl, rfl⟩ := EStateM.Result.ok.inj h
    exact .mapping rfl
  case modifyStatus on r modes =>
    obtain ⟨rfl, rfl⟩ := EStateM.Result.ok.inj h
    exact .modifyStatus
  case returnFromTrap =>
    obtain ⟨rfl, rfl⟩ := EStateM.Result.ok.inj h
    exact .returnFromTrap
  case halt =>
    obtain ⟨rfl, rfl⟩ := EStateM.Result.ok.inj h
    exact .halt
  case diagnose n =>
    obtain ⟨rfl, rfl⟩ := EStateM.Result.ok.inj h
    exact .diagnose

theorem performs_of_perform (h : perform word ia i s = .ok flow s') :
    s.machine.Performs i flow s'.machine := by
  rcases ha : i.isAccess with _ | _
  · rcases hp : i.isPrivileged with _ | _
    · exact performs_of_calculation ha hp h
    · exact performs_of_privileged hp h
  · exact performs_of_access ha h

end Exec

/-- A cycle that completes has fetched a word, has performed its instruction, and has moved on and
counted it after that. -/
theorem Session.performs_of_cycle {s : Session δ} (h : s.trap? = none) : ∃ word i s₁ flow n,
    Exec.fetch s.machine.registers.status.location s.begun = .ok word s₁ ∧
    Instruction.ofWord? word = some i ∧ i.isLegal = true ∧
    (s₁.withInstruction word).machine.Performs i flow n ∧
    s.cycle.2.machine = { n with
      registers := { n.registers with
        status := flow.status n.registers.status s.machine.registers.status.address }
      handlerEntry := none
      counters := { n.counters.inGroup (InstructionWord.group word) with
        retired := (n.counters.inGroup (InstructionWord.group word)).retired + 1
        branchesTaken :=
          (n.counters.inGroup (InstructionWord.group word)).branchesTaken + flow.taken }
      state := if flow = .halt then .halted else n.state } := by
  obtain ⟨flow, s₃, he, hc⟩ := cycle_of_no_trap h
  obtain ⟨word, i, s₁, s₂, hf, hi, hl, -, hp, hs₃⟩ := Exec.instructionAt_ok he
  refine ⟨word, i, s₁, flow, s₂.machine, hf, hi, hl, Exec.performs_of_perform hp, ?_⟩
  rw [hc, machine_retire, hs₃]

end Processor64
