import Mathlib.Tactic.Choose
import Processor64.Proofs.Computation
import Processor64.Proofs.Fields

/-!
# Calculations

An instruction that neither reaches memory nor is privileged is a calculation
(`perform_calculation`): from the registers and the translation buffer alone it finds either a
trap, and then changes nothing, or where execution continues and one general register to set.
Such an instruction branches or goes on and never touches the status bits, and what it comes to
is limited by what it is (`Instruction.ComesTo`): it sets no register but its own, only a branch
leaves the sequence, and unless it is reserved its trap is about its operands. Which instructions
are privileged can be told from the word (`isPrivileged_of_ofWord?`).
-/

namespace Processor64

variable {δ α β : Type}

namespace Instruction

/-- The instructions that reach memory. -/
def isAccess : Instruction → Bool
  | memoryBinary .. | memoryCompare .. | load .. | store .. | loadReserve ..
  | storeConditional .. => true
  | _ => false

/-- The instructions that only privileged code may execute. -/
def isPrivileged : Instruction → Bool
  | moveToControl .. | physicalAddress .. | tlbInsert .. | tlbPurge _ | tlbReset
  | modifyStatus .. | returnFromTrap | halt | diagnose _ => true
  | _ => false

variable {w : InstructionWord} {i : Instruction}

theorem isPrivileged_of_ofBitFieldWord? (h : ofBitFieldWord? w = some i) :
    i.isPrivileged = false := by
  unfold ofBitFieldWord? at h
  split at h <;> simp only [reduceCtorEq, Option.some.injEq] at h <;> rw [← h] <;> rfl

theorem isPrivileged_of_ofShiftAddWord? (h : ofShiftAddWord? w = some i) :
    i.isPrivileged = false := by
  unfold ofShiftAddWord? at h
  split at h <;> simp only [reduceCtorEq, Option.some.injEq] at h <;> rw [← h] <;> rfl

theorem isPrivileged_of_ofArithmeticWord? (h : ofArithmeticWord? w = some i) :
    i.isPrivileged = false := by
  unfold ofArithmeticWord? at h
  split at h
  case h_8 => exact isPrivileged_of_ofBitFieldWord? h
  case h_9 => exact isPrivileged_of_ofShiftAddWord? h
  all_goals simp only [reduceCtorEq, Option.some.injEq] at h
  all_goals rw [← h]; rfl

theorem isPrivileged_of_ofMemoryWord? (h : ofMemoryWord? w = some i) :
    i.isPrivileged = false := by
  unfold ofMemoryWord? at h
  split at h <;> simp only [reduceCtorEq, Option.some.injEq] at h <;> rw [← h] <;> rfl

theorem isPrivileged_of_ofBranchWord? (h : ofBranchWord? w = some i) :
    i.isPrivileged = false := by
  unfold ofBranchWord? at h
  split at h <;> simp only [reduceCtorEq, Option.some.injEq] at h <;> rw [← h] <;> rfl

/-- In the last group the word tells by itself which instructions are privileged. -/
theorem isPrivileged_of_ofSystemWord? (hg : w.group = 3#2) (h : ofSystemWord? w = some i) :
    w.isPrivileged = i.isPrivileged := by
  have hq (n : Nat) : (w.qualifier == BitVec.ofNat 3 n) = (w.qualifier.toNat == n % 8) := by
    rw [Bool.eq_iff_iff, beq_iff_eq, beq_iff_eq, BitVec.toNat_eq, BitVec.toNat_ofNat]
  unfold InstructionWord.isPrivileged
  rw [hg, show (1 : BitVec 3) = BitVec.ofNat 3 1 from rfl, hq]
  unfold ofSystemWord? at h
  generalize w.qualifier.toNat = q at *
  generalize w.family.toNat = f at *
  split at h <;> simp only [reduceCtorEq, Option.some.injEq] at h <;> rw [← h] <;> rfl

/-- A word is privileged exactly if the instruction it holds is. -/
theorem isPrivileged_of_ofWord? (h : Instruction.ofWord? w = some i) :
    w.isPrivileged = i.isPrivileged := by
  unfold Instruction.ofWord? at h
  by_cases hg : w.group = 3#2
  · rw [hg] at h
    exact isPrivileged_of_ofSystemWord? hg h
  · have hw : w.isPrivileged = false := by simp [InstructionWord.isPrivileged, hg]
    have hlt := w.group.isLt
    have hne : w.group.toNat ≠ 3 := fun h3 => hg (BitVec.eq_of_toNat_eq h3)
    rw [hw]
    rcases (by omega : w.group.toNat = 0 ∨ w.group.toNat = 1 ∨ w.group.toNat = 2) with
      h0 | h1 | h2
    · rw [h0] at h
      exact (isPrivileged_of_ofArithmeticWord? h).symm
    · rw [h1] at h
      exact (isPrivileged_of_ofMemoryWord? h).symm
    · rw [h2] at h
      exact (isPrivileged_of_ofBranchWord? h).symm

end Instruction

/-- What a calculation comes to: where execution continues, and the register it sets. -/
structure Outcome where
  target : Option (BitVec 52)
  register : Register
  value : Word

def Outcome.flow (o : Outcome) : Flow :=
  match o.target with
  | none => .next
  | some t => .branch t

/-- The traps about what an instruction finds when it is executed, and not about its word. -/
def TrapCode.ofOperands : List TrapCode :=
  [alignment, physicalMemoryAddress, ioMemoryAddress, overflow, protection, tlbAccess, software]

/-- What a calculation may come to. -/
inductive Instruction.ComesTo (i : Instruction) : Except Trap Outcome → Prop where
  | outcome {o : Outcome} (register : o.register = 0 ∨ i.destination? = some o.register)
    (target : o.target = none ∨ i.group = 2) : i.ComesTo (.ok o)
  | trap {t : Trap} (code : t.code ∈ TrapCode.ofOperands ∨ i.isLegal = false) :
    i.ComesTo (.error t)

namespace Exec

/-- The answer depends on registers and translation buffer, and nothing is changed. -/
def Reads (x : Exec δ α) : Prop :=
  ∃ f : Registers → Tlb → α, ∀ s, x s = .ok (f s.machine.registers s.machine.tlb) s

/-- Registers and translation buffer decide between a trap and the register to set, and between
such as the instruction may come to. -/
def Calculates (i : Instruction) (x : Exec δ Flow) : Prop :=
  ∃ f : Registers → Tlb → Except Trap Outcome, (∀ r t, i.ComesTo (f r t)) ∧ ∀ s,
    x s = match f s.machine.registers s.machine.tlb with
      | .ok o =>
        .ok o.flow (s.withRegisters (s.machine.registers.setGeneral o.register o.value))
      | .error t => .error t s

namespace Reads

theorem pure (a : α) : Reads (pure a : Exec δ α) := ⟨fun _ _ => a, fun _ => rfl⟩

theorem general (r : Register) : Reads (general r : Exec δ Word) :=
  ⟨fun s _ => s.general r, fun _ => rfl⟩

theorem registers : Reads (registers : Exec δ Registers) := ⟨fun s _ => s, fun _ => rfl⟩

theorem status : Reads (status : Exec δ StatusWord) := ⟨fun s _ => s.status, fun _ => rfl⟩

theorem shiftAmount : Reads (shiftAmount : Exec δ Nat) :=
  ⟨fun s _ => (s.control .shiftAmount).toNat % 64, fun _ => rfl⟩

theorem operand (x : Operand) : Reads (operand x : Exec δ Word) := by
  cases x
  · exact general _
  · exact .pure _

theorem operandAddress (x : MemoryOperand) : Reads (operandAddress x : Exec δ Word) :=
  ⟨fun s _ => x.address s, fun _ => operandAddress_apply x⟩

end Reads

namespace Calculates

variable {i : Instruction} {r : Register}

theorem bind {x : Exec δ α} {f : α → Exec δ Flow} (hx : Reads x)
    (hf : ∀ a, Calculates i (f a)) : Calculates i (x >>= f) := by
  obtain ⟨g, hg⟩ := hx
  choose h hi hh using hf
  refine ⟨fun r t => h (g r t) r t, fun r t => hi _ r t, fun s => ?_⟩
  rw [bind_of_eq_ok (hg s)]
  exact hh _ s

theorem throw {t : Trap} (h : t.code ∈ TrapCode.ofOperands ∨ i.isLegal = false) :
    Calculates i (throw t : Exec δ Flow) :=
  ⟨fun _ _ => .error t, fun _ _ => .trap h, fun _ => rfl⟩

theorem next : Calculates i (pure .next : Exec δ Flow) :=
  ⟨fun _ _ => .ok ⟨none, 0, 0⟩, fun _ _ => .outcome (.inl rfl) (.inl rfl), fun _ => rfl⟩

theorem result (hr : i.destination? = some r) (v : Word) :
    Calculates i (result r v : Exec δ Flow) :=
  ⟨fun _ _ => .ok ⟨none, r, v⟩, fun _ _ => .outcome (.inr hr) (.inl rfl), fun _ => rfl⟩

theorem checkedResult (word : InstructionWord) (hr : i.destination? = some r)
    (v : Option Word) : Calculates i (checkedResult word r v : Exec δ Flow) := by
  rcases v with _ | v
  · exact throw (.inl (by simp [InstructionWord.trap, TrapCode.ofOperands]))
  · exact result hr v

theorem misaligned (t : Word) :
    Calculates i (MonadExcept.throw (.misaligned t .word) : Exec δ Flow) :=
  throw (.inl (by simp [Trap.misaligned, Trap.atAddress, TrapCode.ofOperands]))

/-- A jump writes nothing and goes to its target or refuses it. -/
theorem branchTo (hg : i.group = 2) (t : Word) : Calculates i (branchTo t : Exec δ Flow) := by
  unfold Exec.branchTo
  split
  · exact ⟨fun _ _ => .ok ⟨some _, 0, 0⟩, fun _ _ => .outcome (.inl rfl) (.inr hg),
      fun _ => rfl⟩
  · exact misaligned t

/-- A linked jump writes the address to return to, or refuses its target and writes nothing. -/
theorem branchLinked (hg : i.group = 2) (hr : i.destination? = some r) (ia : BitVec 52)
    (t : Word) : Calculates i (branchLinked ia r t : Exec δ Flow) := by
  unfold Exec.branchLinked Exec.branchTo
  split
  · exact ⟨fun _ _ => .ok ⟨some _, r, following ia⟩, fun _ _ => .outcome (.inr hr) (.inr hg),
      fun _ => rfl⟩
  · exact misaligned t

theorem ite {c : Prop} [Decidable c] {x y : Exec δ Flow} (hx : Calculates i x)
    (hy : Calculates i y) : Calculates i (if c then x else y) := by
  split <;> assumption

end Calculates

variable [Device δ]

/-- An unprivileged instruction that does not access memory computes from the registers: it writes
its destination and moves control, or traps. -/
theorem perform_calculation (word : InstructionWord) (ia : BitVec 52) {i : Instruction}
    (ha : i.isAccess = false) (hp : i.isPrivileged = false) :
    Calculates i (perform word ia i : Exec δ Flow) := by
  cases i <;> cases ha <;> cases hp
  case nop | cacheFlush | cachePurge => exact .next
  case binary op r b x m =>
    exact .bind (.general b) fun _ => .bind (.operand x) fun _ => .bind .status fun _ =>
      .checkedResult word rfl _
  case compare c r b x =>
    exact .bind (.general b) fun _ => .bind (.operand x) fun _ => .result rfl _
  case bitField op r b position last =>
    refine .bind (.general b) fun v => ?_
    cases op
    case deposit => exact .bind (.general r) fun _ => .result rfl _
    all_goals exact .result rfl _
  case doubleShift r b a =>
    exact .bind (.general b) fun _ => .bind (.general a) fun _ => .bind .shiftAmount fun _ =>
      .result rfl _
  case shiftAdd left distance r b a =>
    exact .bind (.general b) fun _ => .bind (.general a) fun _ => .bind .status fun _ =>
      .checkedResult word rfl _
  case loadImmediate part r v => exact .bind (.general r) fun _ => .result rfl _
  case loadOffset r b v => exact .bind (.general b) fun _ => .result rfl _
  case branch r d => exact .branchLinked rfl rfl ia _
  case branchRegister r b => exact .bind (.general b) fun t => .branchLinked rfl rfl ia t
  case branchIndexed r b a =>
    exact .bind (.general b) fun _ => .bind (.general a) fun _ => .branchLinked rfl rfl ia _
  case branchBit sense r bit d =>
    cases bit
    case fixed p =>
      exact .bind (.pure p.toNat) fun _ => .bind (.general r) fun _ =>
        .ite (.branchTo rfl _) .next
    case shiftAmount =>
      exact .bind .shiftAmount fun _ => .bind (.general r) fun _ => .ite (.branchTo rfl _) .next
  case branchCompare c r b d =>
    exact .bind (.general r) fun _ => .bind (.general b) fun _ => .ite (.branchTo rfl _) .next
  case branchTable b limit => exact .bind (.general b) fun _ => .branchTo rfl _
  case moveFromControl r c => exact .bind .registers fun _ => .result rfl _
  -- a probe is the one calculation that looks at the translation buffer
  case probe kind r b =>
    rcases kind with _ | k
    · exact .throw (.inr rfl)
    · exact ⟨fun s t => .ok ⟨none, r, flag (t.probe (s.general b) k s.accessContext)⟩,
        fun _ _ => .outcome (.inr rfl) (.inl rfl), fun _ => rfl⟩
  case trap r n =>
    exact .bind (.general r) fun _ =>
      .throw (.inl (by simp [Trap.software, TrapCode.ofOperands]))

end Exec

end Processor64
