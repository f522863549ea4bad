import Processor64.Proofs.Effect

/-!
# How cycles end

A cycle fetches a word and executes it. If both succeed the cycle retires the instruction, and
if either traps (`Session.trap?`) it takes the trap; the count of retired instructions moves in
the first case only (`retired_cycle`). A trap is delivered to its handler or stops the machine
(`takeTrap_cases`), and a delivery writes no control registers but those that tell the handler
about the trap (`controlCell_deliver`).

A word fetched from a console is a byte, hence no operation, so a cycle that traps has fetched
from elsewhere and has changed nothing yet (`touched_of_instructionAt_error`).
-/

namespace Processor64

variable {δ : Type}

/-- The status word that an instruction at `ia` leaves. -/
def Flow.status (flow : Flow) (old : StatusWord) (ia : BitVec 52) : StatusWord :=
  match flow with
  | .next | .halt => old.withAddress (ia + 4)
  | .branch t => old.withAddress t
  | .restore saved => saved

/-- The branches that the end of an instruction counts. -/
def Flow.taken : Flow → Nat
  | .branch _ => 1
  | _ => 0

/-- One more completed instruction of a group. -/
def Counters.inGroup (c : Counters) (g : BitVec 2) : Counters :=
  match g.toNat with
  | 0 => { c with arithmetic := c.arithmetic + 1 }
  | 1 => { c with memory := c.memory + 1 }
  | 2 => { c with branch := c.branch + 1 }
  | _ => { c with system := c.system + 1 }

@[simp]
theorem Counters.retired_inGroup (c : Counters) (g : BitVec 2) :
    (c.inGroup g).retired = c.retired := by
  unfold inGroup
  split <;> rfl

/-- The control registers that tell a handler about its trap. -/
def ControlRegister.ofTrap : List ControlRegister :=
  [trapStatus, trapCode, trapInfo1, trapInfo2, trapInfo3]

theorem Registers.controlCell_setControl (s : Registers) (c : ControlRegister) (v : Word)
    {n : BitVec 4} (h : n ≠ c.number) : (s.setControl c v).controlCell n = s.controlCell n := by
  have hne : c.number.toNat ≠ n.toNat := fun hn => h (BitVec.eq_of_toNat_eq hn.symm)
  simp only [setControl, setControlCell, controlCell, Fin.getElem_fin, BitVec.val_toFin,
    Vector.getElem_set, hne, if_false]

namespace Session

theorem machine_retire (s : Session δ) (ia : BitVec 52) (flow : Flow) :
    (s.retire ia flow).2.machine = { s.machine with
      registers := { s.machine.registers with
        status := flow.status s.machine.registers.status ia }
      handlerEntry := none
      counters := { s.machine.counters with
        retired := s.machine.counters.retired + 1
        branchesTaken := s.machine.counters.branchesTaken + flow.taken }
      state := if flow = .halt then .halted else s.machine.state } := by
  unfold retire
  cases flow <;> dsimp only <;> split <;> rfl

theorem retired_retire (s : Session δ) (ia : BitVec 52) (flow : Flow) :
    (s.retire ia flow).2.machine.counters.retired = s.machine.counters.retired + 1 := by
  rw [machine_retire]

/-- Only a halt ends a run without a trap. -/
theorem retire_fst (s : Session δ) (ia : BitVec 52) (flow : Flow) :
    (s.retire ia flow).1 = if flow = .halt then some .halted else none := by
  cases flow <;> rfl

theorem controlCell_deliver {n : BitVec 4} (h : n ∉ ControlRegister.ofTrap.map (·.number))
    (s : Session δ) (t : Trap) (saved : StatusWord) (table : Word) :
    (s.deliver t saved table).machine.registers.controlCell n =
      s.machine.registers.controlCell n := by
  simp only [ControlRegister.ofTrap, List.map_cons, List.map_nil, List.mem_cons, not_or] at h
  obtain ⟨h₁, h₂, h₃, h₄, h₅, -⟩ := h
  refine (Registers.controlCell_setControl _ .trapInfo3 _ h₅).trans ?_
  rw [Registers.controlCell_setControl _ _ _ h₄, Registers.controlCell_setControl _ _ _ h₃,
    Registers.controlCell_setControl _ _ _ h₂, Registers.controlCell_setControl _ _ _ h₁]

/-- A trap is delivered to its handler or stops the machine. -/
theorem takeTrap_cases (s : Session δ) (t : Trap) (ia : BitVec 52) :
    (∃ controls vector, (s.takeTrap t ia).1 = none ∧
      s.machine.settings.trapPolicy = .vector ∧
      s.machine.registers.control .vectorAddress ≠ 0 ∧
      (∀ n, n ∉ ControlRegister.ofTrap.map (·.number) →
        (s.takeTrap t ia).2.machine.registers.controlCell n =
          s.machine.registers.controlCell n) ∧
      (s.takeTrap t ia).2.machine = { s.machine with
        registers := { s.machine.registers with
          controls := controls
          status := .atStart vector
          reservation := none }
        counters := { s.machine.counters.recordTrap t.code with
          trapsVectored := s.machine.counters.trapsVectored + 1 }
        lastTrap := some ⟨t, ia.setWidth 64⟩
        handlerEntry := some vector }) ∨
    (s.takeTrap t ia).1 = some (.trapped ⟨t, ia.setWidth 64⟩) ∧
      (s.takeTrap t ia).2.machine = { s.machine with
        registers := { s.machine.registers with
          status := s.machine.registers.status.withAddress
            (if t.code = .software then ia + 4 else ia)
          reservation := none }
        counters := s.machine.counters.recordTrap t.code
        lastTrap := some ⟨t, ia.setWidth 64⟩
        handlerEntry := none
        state := .trapped } := by
  unfold takeTrap
  dsimp only
  split
  · rename_i hp
    rcases he : s.machine.handlerEntry with _ | entry
    · left
      exact ⟨_, _, rfl, hp.1, hp.2, fun n hn => controlCell_deliver hn _ t _ _, rfl⟩
    · right
      exact ⟨rfl, rfl⟩
  · right
    exact ⟨rfl, rfl⟩

end Session

variable [Device δ] {s s' : Session δ} {t : Trap} {a p : Word} {word : InstructionWord}
  {ia : BitVec 52} {flow : Flow} {i : Instruction}

namespace Exec

theorem fetch_ok (h : fetch a s = .ok word s') :
    ∃ p reply, (s.machine.place a .word .execute).1 = .ok p ∧
      s.machine.memory.read p .word false = .ok reply ∧ reply.value.extractLsb' 0 32 = word ∧
      s'.machine = { s.machine with
        tlb := (s.machine.place a .word .execute).2
        memory := reply.after } := by
  simp only [fetch, bind_eq_ok, translate_eq_ok, readMemory_apply, absorb_eq_ok, pure_apply,
    EStateM.Result.ok.injEq] at h
  obtain ⟨p, _, ⟨hp, rfl⟩, _, _, ⟨reply, hr, rfl, rfl⟩, rfl, rfl⟩ := h
  exact ⟨p, reply, hp, hr, rfl, rfl⟩

theorem touched_of_fetch_error (h : fetch a s = .error t s') : s.Touched s' := by
  simp only [fetch, bind_eq_error, readMemory_apply, absorb_eq_error, pure_apply, reduceCtorEq,
    and_false, exists_false, or_false] at h
  rcases h with h | ⟨_, _, h, -, rfl⟩
  · exact touched_of_translate_error h
  · exact touched_of_translate h

theorem execute_apply (word : InstructionWord) (ia : BitVec 52) (s : Session δ) :
    execute word ia s =
      if word.isPrivileged && !s.machine.registers.status.privileged then
        .error (word.trap .privilegeViolation) s
      else match Instruction.ofWord? word with
        | none => .error (word.trap .illegalInstruction) s
        | some i =>
          if i.isLegal then perform word ia i s
          else .error (word.trap .illegalInstruction) s := by
  unfold execute
  rw [bind_of_eq_ok status_apply, ite_apply]
  split
  · rfl
  · rcases Instruction.ofWord? word with _ | i
    · rfl
    · exact ite_apply _ _

/-- What a word does, a legal instruction does that the program may run. -/
theorem execute_ok (h : execute word ia s = .ok flow s') :
    ∃ i, Instruction.ofWord? word = some i ∧ i.isLegal = true ∧
      (s.machine.registers.status.privileged = false → i.isPrivileged = false) ∧
      perform word ia i s = .ok flow s' := by
  rw [execute_apply] at h
  split at h
  · simp at h
  · rename_i hp
    rcases hi : Instruction.ofWord? word with _ | i <;> rw [hi] at h <;>
      simp only [reduceCtorEq] at h
    split at h
    · rename_i hl
      refine ⟨i, rfl, hl, fun hu => ?_, h⟩
      rw [← Instruction.isPrivileged_of_ofWord? hi]
      simpa [hu] using hp
    · simp at h

/-- A legal word that is not privileged does what its instruction does. -/
theorem execute_of_unprivileged (hi : Instruction.ofWord? word = some i) (hl : i.isLegal = true)
    (hp : i.isPrivileged = false) : execute word ia s = perform word ia i s := by
  rw [← Instruction.isPrivileged_of_ofWord? hi] at hp
  simp [execute_apply, hp, hi, hl]

/-- A word that traps is refused, and then nothing is done, or its instruction traps. -/
theorem execute_error (h : execute word ia s = .error t s') :
    s' = s ∧ (t = word.trap .privilegeViolation ∨ t = word.trap .illegalInstruction) ∨
      ∃ i, Instruction.ofWord? word = some i ∧ i.isLegal = true ∧
        perform word ia i s = .error t s' := by
  rw [execute_apply] at h
  split at h
  · obtain ⟨rfl, rfl⟩ := EStateM.Result.error.inj h
    exact .inl ⟨rfl, .inl rfl⟩
  · rcases hi : Instruction.ofWord? word with _ | i <;> rw [hi] at h
    · obtain ⟨rfl, rfl⟩ := EStateM.Result.error.inj h
      exact .inl ⟨rfl, .inr rfl⟩
    · dsimp only at h
      split at h
      · rename_i hl
        exact .inr ⟨i, rfl, hl, h⟩
      · obtain ⟨rfl, rfl⟩ := EStateM.Result.error.inj h
        exact .inl ⟨rfl, .inr rfl⟩

theorem touched_of_execute_error (h : execute word ia s = .error t s') : s.Touched s' := by
  rcases execute_error h with ⟨rfl, -⟩ | ⟨i, -, -, h⟩
  · exact .refl _
  · exact touched_of_perform_error h

/-- A byte is the word of an instruction that does nothing. -/
theorem ofWord?_of_lt (h : word.toNat < 256) : Instruction.ofWord? word = some .nop := by
  have hg : word.group.toNat = 0 := by
    simp only [InstructionWord.group, BitVec.extractLsb'_toNat, Nat.shiftRight_eq_div_pow]
    omega
  have hf : word.family.toNat = 0 := by
    simp only [InstructionWord.family, BitVec.extractLsb'_toNat, Nat.shiftRight_eq_div_pow]
    omega
  simp only [Instruction.ofWord?, hg, Instruction.ofArithmeticWord?, hf]

theorem execute_of_lt (h : word.toNat < 256) : execute word ia s = .ok .next s :=
  execute_of_unprivileged (ofWord?_of_lt h) rfl rfl

/-- The word of an instruction that completes, what it was decoded to, and what that did. -/
theorem instructionAt_ok (h : instructionAt ia s = .ok flow s') :
    ∃ word i s₁ s₂, fetch (ia.setWidth 64) s = .ok word s₁ ∧
      Instruction.ofWord? word = some i ∧ i.isLegal = true ∧
      (s.machine.registers.status.privileged = false → i.isPrivileged = false) ∧
      perform word ia i
        (s₁.withRegisters { s₁.machine.registers with instruction := word }) = .ok flow s₂ ∧
      s'.machine = { s₂.machine with
        counters := s₂.machine.counters.inGroup (InstructionWord.group word) } := by
  simp only [instructionAt, bind_eq_ok, mapRegisters_apply, pure_apply,
    EStateM.Result.ok.injEq] at h
  obtain ⟨word, s₁, hf, _, _, ⟨-, rfl⟩, _, s₂, he, _, _, hc, rfl, rfl⟩ := h
  obtain ⟨i, hi, hl, hp, he⟩ := execute_ok he
  obtain ⟨_, _, -, -, -, hs₁⟩ := fetch_ok hf
  refine ⟨word, i, s₁, s₂, hf, hi, hl, fun hu => hp ?_, he, ?_⟩
  · rw [Session.machine_withRegisters, hs₁]
    exact hu
  · obtain ⟨-, rfl⟩ := EStateM.Result.ok.inj hc
    rfl

/-- An unprivileged instruction that was fetched decides how its cycle ends. -/
theorem instructionAt_of_fetch {s₁ : Session δ}
    (hf : fetch (ia.setWidth 64) s = .ok word s₁) (hi : Instruction.ofWord? word = some i)
    (hl : i.isLegal = true) (hp : i.isPrivileged = false) :
    (∃ flow s₂ s₃, perform word ia i
        (s₁.withRegisters { s₁.machine.registers with instruction := word }) = .ok flow s₂ ∧
      instructionAt ia s = .ok flow s₃ ∧
      ∃ counters, s₃.machine = { s₂.machine with counters := counters }) ∨
    ∃ t s₂, perform word ia i
        (s₁.withRegisters { s₁.machine.registers with instruction := word }) = .error t s₂ ∧
      instructionAt ia s = .error t s₂ := by
  have he : execute word ia
      (s₁.withRegisters { s₁.machine.registers with instruction := word }) = perform word ia i
      (s₁.withRegisters { s₁.machine.registers with instruction := word }) :=
    execute_of_unprivileged hi hl hp
  rw [← he]
  unfold instructionAt
  rw [bind_of_eq_ok hf, bind_of_eq_ok (mapRegisters_apply _)]
  rcases hx : execute word ia
      (s₁.withRegisters { s₁.machine.registers with instruction := word }) with
    ⟨flow, s₂⟩ | ⟨t, s₂⟩
  · left
    rw [bind_of_eq_ok hx]
    exact ⟨flow, s₂, _, rfl, rfl, _, rfl⟩
  · right
    exact ⟨t, s₂, rfl, bind_eq_error.mpr (.inl hx)⟩

/-- A cycle traps in its fetch, or in the instruction it fetched. -/
theorem instructionAt_error (h : instructionAt ia s = .error t s') :
    s.Touched s' ∨ ∃ word s₁, fetch (ia.setWidth 64) s = .ok word s₁ ∧ ∃ s₂,
      s₁.Touched s₂ ∧ execute word ia s₂ = .error t s' := by
  simp only [instructionAt, bind_eq_error, mapRegisters_apply, countGroup, count_apply,
    pure_apply, EStateM.Result.ok.injEq, reduceCtorEq, and_false, exists_false, or_false,
    false_or] at h
  rcases h with h | ⟨word, s₁, hf, _, _, ⟨-, rfl⟩, he⟩
  · exact .inl (touched_of_fetch_error h)
  · exact .inr ⟨word, s₁, hf, _, .withRegisters _ word _, he⟩

theorem keeps_of_instructionAt_error (h : instructionAt ia s = .error t s') :
    s.machine.Keeps s'.machine := by
  rcases instructionAt_error h with h | ⟨word, s₁, hf, s₂, h₂, he⟩
  · exact h.keeps
  · obtain ⟨_, _, -, hr, -, hs₁⟩ := fetch_ok hf
    obtain ⟨hs, hc, hp, hn, hst⟩ := (h₂.trans (touched_of_execute_error he)).keeps
    rw [hs₁] at hs hc hp hn hst
    exact ⟨hs, hc, hp.trans (Memory.physical_read hr), hn, hst⟩

/-- With no devices but consoles, an instruction that traps has changed nothing but recency, the
instruction register and the reservation. -/
theorem touched_of_instructionAt_error
    (hd : ∀ d ∈ s.machine.memory.io.devices, ∃ c, d = .console c)
    (h : instructionAt ia s = .error t s') : s.Touched s' := by
  rcases instructionAt_error h with h | ⟨word, s₁, hf, s₂, h₂, he⟩
  · exact h
  · obtain ⟨_, reply, -, hr, hw, hs₁⟩ := fetch_ok hf
    rcases Memory.read_consoles hd hr with hm | hm
    · have h₁ : s.Touched s₁ := by
        refine ⟨_, s.machine.registers.instruction, s.machine.registers.reservation, s₁.log,
          Machine.contents_place s.machine (ia.setWidth 64) .word .execute, ?_⟩
        rw [hm] at hs₁
        cases s₁
        exact congrArg (Session.mk · _) hs₁
      exact (h₁.trans h₂).trans (touched_of_execute_error he)
    · -- the word is a byte of input, and no word so small can trap
      rw [execute_of_lt] at he
      · simp at he
      · rw [← hw, BitVec.extractLsb'_toNat]
        omega

/-- An instruction that completes has not retired yet, nor changed the state of the run. -/
theorem retired_of_instructionAt (h : instructionAt ia s = .ok flow s') :
    s'.machine.counters.retired = s.machine.counters.retired ∧
      s'.machine.state = s.machine.state := by
  obtain ⟨word, i, s₁, s₂, hf, -, -, -, hp, hs'⟩ := instructionAt_ok h
  obtain ⟨_, _, -, -, -, hs₁⟩ := fetch_ok hf
  have h₂ : s₂.machine.counters.retired = s₁.machine.counters.retired ∧
      s₂.machine.state = s₁.machine.state := by
    rcases hi : i.isPrivileged
    · exact ⟨(perform_unprivileged hi hp).2.retired, (perform_unprivileged hi hp).2.state⟩
    · obtain ⟨-, -, hcounters, hstate⟩ := perform_privileged hi hp
      exact ⟨congrArg (·.retired) hcounters, hstate⟩
  rw [hs', Counters.retired_inGroup, h₂.1, hs₁]
  exact ⟨rfl, h₂.2.trans (congrArg (·.state) hs₁)⟩

end Exec

namespace Session

/-- The session once its next cycle has begun. -/
def begun (s : Session δ) : Session δ := s.count fun c => { c with cycles := c.cycles + 1 }

/-- The trap that the next cycle ends in, if it does. -/
def trap? (s : Session δ) : Option Trap :=
  match Exec.instructionAt s.machine.registers.status.address s.begun with
  | .ok _ _ => none
  | .error t _ => some t

/-- A cycle whose instruction completes retires it. -/
theorem cycle_of_ok {s₁ : Session δ}
    (h : Exec.instructionAt s.machine.registers.status.address s.begun = .ok flow s₁) :
    s.trap? = none ∧ s.cycle = s₁.retire s.machine.registers.status.address flow := by
  constructor
  · rw [trap?, h]
  · show (match Exec.instructionAt s.machine.registers.status.address s.begun with
      | .ok flow s₁ => s₁.retire s.machine.registers.status.address flow
      | .error t s₁ => s₁.takeTrap t s.machine.registers.status.address) = _
    rw [h]

/-- A cycle whose instruction traps takes the trap. -/
theorem cycle_of_error {s₁ : Session δ}
    (h : Exec.instructionAt s.machine.registers.status.address s.begun = .error t s₁) :
    s.trap? = some t ∧ s.cycle = s₁.takeTrap t s.machine.registers.status.address := by
  constructor
  · rw [trap?, h]
  · show (match Exec.instructionAt s.machine.registers.status.address s.begun with
      | .ok flow s₁ => s₁.retire s.machine.registers.status.address flow
      | .error t s₁ => s₁.takeTrap t s.machine.registers.status.address) = _
    rw [h]

theorem cycle_of_trap (h : s.trap? = some t) : ∃ s₁,
    Exec.instructionAt s.machine.registers.status.address s.begun = .error t s₁ ∧
      s.cycle = s₁.takeTrap t s.machine.registers.status.address := by
  rcases he : Exec.instructionAt s.machine.registers.status.address s.begun with
    ⟨flow, s₁⟩ | ⟨e, s₁⟩
  · simp [(cycle_of_ok he).1] at h
  · obtain ⟨ht, hc⟩ := cycle_of_error he
    obtain rfl := Option.some.inj (ht.symm.trans h)
    exact ⟨s₁, rfl, hc⟩

theorem cycle_of_no_trap (h : s.trap? = none) : ∃ flow s₁,
    Exec.instructionAt s.machine.registers.status.address s.begun = .ok flow s₁ ∧
      s.cycle = s₁.retire s.machine.registers.status.address flow := by
  rcases he : Exec.instructionAt s.machine.registers.status.address s.begun with
    ⟨flow, s₁⟩ | ⟨e, s₁⟩
  · exact ⟨flow, s₁, rfl, (cycle_of_ok he).2⟩
  · simp [(cycle_of_error he).1] at h

/-- The session with a word in its instruction register. -/
def withInstruction (s : Session δ) (word : InstructionWord) : Session δ :=
  s.withRegisters { s.machine.registers with instruction := word }

/-- What is left of a cycle at `ia` that has fetched a word. -/
def obey (s : Session δ) (word : InstructionWord) (ia : BitVec 52) :
    Option StopReason × Session δ :=
  match Exec.execute word ia (s.withInstruction word) with
  | .ok flow s => (s.count (·.inGroup word.group)).retire ia flow
  | .error t s => s.takeTrap t ia

/-- The trap that obeying a word ends in, if it does. -/
def obeyTrap? (s : Session δ) (word : InstructionWord) (ia : BitVec 52) : Option Trap :=
  match Exec.execute word ia (s.withInstruction word) with
  | .ok _ _ => none
  | .error t _ => some t

/-- A cycle that fetches a word obeys it. -/
theorem cycle_of_fetch {s₁ : Session δ}
    (hf : Exec.fetch s.machine.registers.status.location s.begun = .ok word s₁) :
    s.trap? = s₁.obeyTrap? word s.machine.registers.status.address ∧
      s.cycle = s₁.obey word s.machine.registers.status.address := by
  have hi : Exec.instructionAt s.machine.registers.status.address s.begun =
      (do let flow ← Exec.execute word s.machine.registers.status.address
          Exec.countGroup word
          return flow : Exec δ Flow) (s₁.withInstruction word) :=
    (Exec.bind_of_eq_ok hf).trans (Exec.bind_of_eq_ok (Exec.mapRegisters_apply _))
  unfold obeyTrap? obey
  rcases he : Exec.execute word s.machine.registers.status.address (s₁.withInstruction word) with
    ⟨flow, s₂⟩ | ⟨t, s₂⟩
  · exact cycle_of_ok (hi.trans (Exec.bind_of_eq_ok he))
  · exact cycle_of_error (hi.trans (Exec.bind_eq_error.mpr (.inl he)))

theorem retired_cycle (s : Session δ) : s.cycle.2.machine.counters.retired =
    s.machine.counters.retired + if s.trap?.isNone then 1 else 0 := by
  rcases h : s.trap? with _ | t
  · obtain ⟨flow, s₁, he, hc⟩ := cycle_of_no_trap h
    rw [hc, retired_retire, (Exec.retired_of_instructionAt he).1]
    rfl
  · obtain ⟨s₁, he, hc⟩ := cycle_of_trap h
    have h₁ : s₁.machine.counters.retired = s.machine.counters.retired :=
      congrArg (·.retired) (Exec.keeps_of_instructionAt_error he).counters
    rcases takeTrap_cases s₁ t s.machine.registers.status.address with
      ⟨_, _, -, -, -, -, hm⟩ | ⟨-, hm⟩ <;> rw [hc, hm] <;> exact h₁

/-- A cycle without a reason to stop keeps the state of the run. -/
theorem state_cycle (h : s.cycle.1 = none) : s.cycle.2.machine.state = s.machine.state := by
  rcases ht : s.trap? with _ | t
  · obtain ⟨flow, s₁, he, hc⟩ := cycle_of_no_trap ht
    rw [hc, retire_fst] at h
    split at h
    · simp at h
    · rename_i hf
      rw [hc, machine_retire]
      exact (if_neg hf).trans (Exec.retired_of_instructionAt he).2
  · obtain ⟨s₁, he, hc⟩ := cycle_of_trap ht
    rcases takeTrap_cases s₁ t s.machine.registers.status.address with
      ⟨_, _, -, -, -, -, hm⟩ | ⟨hs, -⟩
    · rw [hc, hm]
      exact (Exec.keeps_of_instructionAt_error he).state
    · rw [hc, hs] at h
      simp at h

end Session

end Processor64
