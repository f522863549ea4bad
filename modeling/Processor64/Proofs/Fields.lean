import Processor64.Instruction.Decode

/-!
# Instructions and the fields of their words

An instruction tells the group and the family of the word that it was decoded from, and if it may
set a register, that is the one in the field R (`fits_of_ofWord?`). The control register and the
modes that an instruction names stand in its word too.
-/

namespace Processor64

/-- The family of an operation, with two registers as with an operand in memory. -/
def BinaryOp.family : BinaryOp → BitVec 4
  | add => 1
  | subtract => 2
  | and => 3
  | or => 4
  | xor => 5

namespace Instruction

def group : Instruction → BitVec 2
  | nop | binary .. | compare .. | bitField .. | doubleShift .. | shiftAdd ..
  | loadImmediate .. | loadOffset .. => 0
  | memoryBinary .. | memoryCompare .. | load .. | store .. | loadReserve ..
  | storeConditional .. => 1
  | branch .. | branchRegister .. | branchIndexed .. | branchBit .. | branchCompare ..
  | branchTable .. => 2
  | moveFromControl .. | moveToControl .. | physicalAddress .. | probe .. | tlbInsert ..
  | tlbPurge _ | tlbReset | cacheFlush _ | cachePurge _ | modifyStatus .. | returnFromTrap
  | trap .. | halt | diagnose _ => 3

def family : Instruction → BitVec 4
  | nop => 0
  | binary op .. | memoryBinary op .. => op.family
  | compare .. | memoryCompare .. => 6
  | bitField .. | doubleShift .. => 7
  | shiftAdd .. => 8
  | loadImmediate .. => 9
  | loadOffset .. => 10
  | load .. => 8
  | store .. => 9
  | loadReserve .. => 10
  | storeConditional .. => 11
  | branch .. => 1
  | branchRegister .. => 2
  | branchIndexed .. => 3
  | branchBit .. => 4
  | branchCompare .. => 5
  | branchTable .. => 6
  | moveFromControl .. | moveToControl .. => 1
  | physicalAddress .. => 2
  | probe .. => 3
  | tlbInsert .. | tlbPurge _ | tlbReset => 4
  | cacheFlush _ | cachePurge _ => 5
  | modifyStatus .. => 6
  | returnFromTrap => 7
  | trap .. => 14
  | halt | diagnose _ => 15

/-- The register that an instruction may set. -/
def destination? : Instruction → Option Register
  | binary _ r .. | compare _ r .. | bitField _ r .. | doubleShift r .. | shiftAdd _ _ r ..
  | loadImmediate _ r _ | loadOffset r .. | memoryBinary _ _ r .. | memoryCompare _ _ r _
  | load _ _ r _ | loadReserve _ r _ | storeConditional _ r _ | branch r _ | branchRegister r _
  | branchIndexed r .. | moveFromControl r _ | physicalAddress r _ | probe _ r _
  | modifyStatus _ r _ => some r
  | nop | store .. | branchBit .. | branchCompare .. | branchTable .. | moveToControl ..
  | tlbInsert .. | tlbPurge _ | tlbReset | cacheFlush _ | cachePurge _ | returnFromTrap | trap ..
  | halt | diagnose _ => none

/-- The instruction agrees with the fields of its word. -/
structure Fits (i : Instruction) (w : InstructionWord) : Prop where
  group : i.group = w.group
  family : i.family = w.family
  destination : ∀ r, i.destination? = some r → r = w.r

variable {w : InstructionWord} {i : Instruction}

theorem Fits.of_toNat {g f : Nat} (hg : w.group.toNat = g) (hf : w.family.toNat = f)
    (hig : i.group.toNat = g) (hif : i.family.toNat = f)
    (hr : ∀ r, i.destination? = some r → r = w.r) : i.Fits w where
  group := BitVec.eq_of_toNat_eq (hig.trans hg.symm)
  family := BitVec.eq_of_toNat_eq (hif.trans hf.symm)
  destination := hr

theorem fits_of_ofBitFieldWord? (hg : w.group.toNat = 0) (hf : w.family.toNat = 7)
    (h : ofBitFieldWord? w = some i) : i.Fits w := by
  unfold ofBitFieldWord? at h
  split at h <;> simp only [reduceCtorEq, Option.some.injEq] at h
  all_goals
    rw [← h]
    exact .of_toNat hg hf rfl rfl fun _ hr => by cases hr; rfl

theorem fits_of_ofShiftAddWord? (hg : w.group.toNat = 0) (hf : w.family.toNat = 8)
    (h : ofShiftAddWord? w = some i) : i.Fits w := by
  unfold ofShiftAddWord? at h
  split at h <;> simp only [reduceCtorEq, Option.some.injEq] at h
  all_goals
    rw [← h]
    exact .of_toNat hg hf rfl rfl fun _ hr => by cases hr; rfl

theorem fits_of_ofArithmeticWord? (hg : w.group.toNat = 0) (h : ofArithmeticWord? w = some i) :
    i.Fits w := by
  unfold ofArithmeticWord? at h
  split at h
  case h_8 hf => exact fits_of_ofBitFieldWord? hg hf h
  case h_9 hf => exact fits_of_ofShiftAddWord? hg hf h
  all_goals simp only [reduceCtorEq, Option.some.injEq] at h
  all_goals
    rename_i hf
    rw [← h]
    exact .of_toNat hg hf rfl rfl fun _ hr => by cases hr <;> rfl

theorem fits_of_ofMemoryWord? (hg : w.group.toNat = 1) (h : ofMemoryWord? w = some i) :
    i.Fits w := by
  unfold ofMemoryWord? at h
  split at h <;> simp only [reduceCtorEq, Option.some.injEq] at h
  all_goals
    rename_i hf
    rw [← h]
    exact .of_toNat hg hf rfl rfl fun _ hr => by cases hr <;> rfl

theorem fits_of_ofBranchWord? (hg : w.group.toNat = 2) (h : ofBranchWord? w = some i) :
    i.Fits w := by
  unfold ofBranchWord? at h
  split at h <;> simp only [reduceCtorEq, Option.some.injEq] at h
  all_goals
    rename_i hf
    rw [← h]
    exact .of_toNat hg hf rfl rfl fun _ hr => by cases hr <;> rfl

theorem fits_of_ofSystemWord? (hg : w.group.toNat = 3) (h : ofSystemWord? w = some i) :
    i.Fits w := by
  unfold ofSystemWord? at h
  generalize hf : w.family.toNat = f at h
  split at h <;> simp only [reduceCtorEq, Option.some.injEq] at h
  all_goals
    rw [← h]
    exact .of_toNat hg hf rfl rfl fun _ hr => by cases hr <;> rfl

/-- An instruction has the group, the family and the destination of its word. -/
theorem fits_of_ofWord? (h : ofWord? w = some i) : i.Fits w := by
  unfold ofWord? at h
  split at h
  case h_1 hg => exact fits_of_ofArithmeticWord? hg h
  case h_2 hg => exact fits_of_ofMemoryWord? hg h
  case h_3 hg => exact fits_of_ofBranchWord? hg h
  case h_4 h₀ h₁ h₂ =>
    have hlt := w.group.isLt
    refine fits_of_ofSystemWord? ?_ h
    simp only [imp_false] at h₀ h₁ h₂
    omega

theorem ofSystemWord?_of_ofWord? (hg : w.group.toNat = 3) (h : ofWord? w = some i) :
    ofSystemWord? w = some i := by
  unfold ofWord? at h
  rw [hg] at h
  exact h

/-- A move to a control register names it in the field B. -/
theorem control_of_ofWord? {r : Register} {c : BitVec 4}
    (h : ofWord? w = some (moveToControl r c)) : c = w.b := by
  have hg := congrArg BitVec.toNat (fits_of_ofWord? h).group
  have hs := ofSystemWord?_of_ofWord? hg.symm h
  unfold ofSystemWord? at hs
  split at hs <;> cases hs
  rfl

/-- A change of modes selects them in the lowest bits. -/
theorem modes_of_ofWord? {on : Bool} {r : Register} {modes : BitVec 3}
    (h : ofWord? w = some (modifyStatus on r modes)) : modes = w.imm13.extractLsb' 0 3 := by
  have hg := congrArg BitVec.toNat (fits_of_ofWord? h).group
  have hs := ofSystemWord?_of_ofWord? hg.symm h
  unfold ofSystemWord? at hs
  split at hs <;> cases hs <;> rfl

end Instruction

end Processor64
