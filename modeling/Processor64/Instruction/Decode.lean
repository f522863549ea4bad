import Processor64.Instruction
import Processor64.Instruction.Word

/-!
# Decoding

The table of opcodes. A word whose group, family and qualifier are in the table is an instruction,
legal or not; any other word is none. Whether a word is privileged is decided by the same three
fields, before its legality.
-/

namespace Processor64

namespace InstructionWord

/-- The modifiers of a logical operation, in the upper two qualifier bits. -/
def modifiers (w : InstructionWord) : Modifiers :=
  ⟨w.qualifier[1], w.qualifier[2]⟩

/-- The second operand: the low qualifier bit chooses the immediate value. -/
def operand (w : InstructionWord) : Operand :=
  if w.qualifier[0] then .immediate w.imm15 else .register w.a

/-- The address operand: the low qualifier bit chooses the index register. -/
def memoryOperand (w : InstructionWord) : MemoryOperand :=
  if w.qualifier[0] then .indexed w.b w.a else .displaced w.b w.imm13

def width (w : InstructionWord) : Width := .ofCode w.widthCode

/-- The condition a comparison names, in the upper two qualifier bits. -/
def compareCondition (w : InstructionWord) : Condition :=
  .ofCompareCode (w.qualifier.extractLsb' 1 2)

/-- The part of a word a load of an immediate value fills. -/
def immediatePart (w : InstructionWord) : ImmediatePart :=
  match w.qualifier[2], w.qualifier[1] with
  | false, false => .low
  | false, true => .middle
  | true, false => .upper
  | true, true => .top

/-- The bit a branch on a bit tests. -/
def testedBit (w : InstructionWord) : TestedBit :=
  if w.qualifier[1] then .shiftAmount else .fixed w.bitPosition

end InstructionWord

namespace Instruction

/-- The operation on bit fields that a word holds, if it holds one. -/
def ofBitFieldWord? (w : InstructionWord) : Option Instruction :=
  let field (op : FieldOp) := some (bitField op w.r w.b w.fieldPosition w.fieldLast)
  match w.qualifier.toNat with
  | 0 => field .extract
  | 1 => field .extractSigned
  | 2 => field .deposit
  | 3 => field .depositZero
  | 4 => some (doubleShift w.r w.b w.a)
  | _ => none

/-- The shift-and-add that a word holds, if it holds one. -/
def ofShiftAddWord? (w : InstructionWord) : Option Instruction :=
  match w.qualifier.toNat with
  | 0 => some (shiftAdd true .one w.r w.b w.a)
  | 1 => some (shiftAdd true .two w.r w.b w.a)
  | 2 => some (shiftAdd true .three w.r w.b w.a)
  | 4 => some (shiftAdd false .one w.r w.b w.a)
  | 5 => some (shiftAdd false .two w.r w.b w.a)
  | 6 => some (shiftAdd false .three w.r w.b w.a)
  | _ => none

/-- Group 0: calculations. -/
def ofArithmeticWord? (w : InstructionWord) : Option Instruction :=
  let calculation (op : BinaryOp) := some (binary op w.r w.b w.operand w.modifiers)
  match w.family.toNat with
  | 0 => some nop
  | 1 => calculation .add
  | 2 => calculation .subtract
  | 3 => calculation .and
  | 4 => calculation .or
  | 5 => calculation .xor
  | 6 => some (compare w.compareCondition w.r w.b w.operand)
  | 7 => ofBitFieldWord? w
  | 8 => ofShiftAddWord? w
  | 9 => some (loadImmediate w.immediatePart w.r w.imm20)
  | 10 => some (loadOffset w.r w.b w.imm15)
  | _ => none

/-- Group 1: accesses to memory. -/
def ofMemoryWord? (w : InstructionWord) : Option Instruction :=
  let calculation (op : BinaryOp) :=
    some (memoryBinary op w.width w.r w.memoryOperand w.modifiers)
  match w.family.toNat with
  | 1 => calculation .add
  | 2 => calculation .subtract
  | 3 => calculation .and
  | 4 => calculation .or
  | 5 => calculation .xor
  | 6 => some (memoryCompare w.compareCondition w.width w.r w.memoryOperand)
  | 8 => some (load w.qualifier[1] w.width w.r w.memoryOperand)
  | 9 => some (store w.width w.r w.memoryOperand)
  | 10 => some (loadReserve w.width w.r w.memoryOperand)
  | 11 => some (storeConditional w.width w.r w.memoryOperand)
  | _ => none

/-- Group 2: branches. -/
def ofBranchWord? (w : InstructionWord) : Option Instruction :=
  match w.family.toNat with
  | 1 => some (branch w.r w.imm19)
  | 2 => some (branchRegister w.r w.b)
  | 3 => some (branchIndexed w.r w.b w.a)
  | 4 => some (branchBit w.qualifier[0] w.r w.testedBit w.imm13)
  | 5 => some (branchCompare (.ofBranchCode w.qualifier) w.r w.b w.imm15)
  | 6 => some (branchTable w.b (w.imm15.extractLsb' 0 14))
  | _ => none

/-- Group 3: control of the system. -/
def ofSystemWord? (w : InstructionWord) : Option Instruction :=
  match w.family.toNat, w.qualifier.toNat with
  | 1, 0 => some (moveFromControl w.r w.b)
  | 1, 1 => some (moveToControl w.r w.b)
  | 2, _ => some (physicalAddress w.r w.b)
  | 3, q => some (probe (AccessKind.ofCode? (q % 4)) w.r w.b)
  | 4, 0 => some (tlbInsert w.r w.b w.a)
  | 4, 1 => some (tlbPurge w.b)
  | 4, 2 => some tlbReset
  | 5, 0 => some (cacheFlush w.b)
  | 5, 1 => some (cachePurge w.b)
  | 6, 0 => some (modifyStatus true w.r (w.imm13.extractLsb' 0 3))
  | 6, 1 => some (modifyStatus false w.r (w.imm13.extractLsb' 0 3))
  | 7, _ => some returnFromTrap
  | 14, _ => some (trap w.r w.imm13)
  | 15, 7 => some halt
  | 15, _ => some (diagnose w.qualifier)
  | _, _ => none

/-- The instruction a word holds, if it holds one. -/
def ofWord? (w : InstructionWord) : Option Instruction :=
  match w.group.toNat with
  | 0 => ofArithmeticWord? w
  | 1 => ofMemoryWord? w
  | 2 => ofBranchWord? w
  | _ => ofSystemWord? w

end Instruction

/-- Whether a word may only be executed in privileged mode. -/
def InstructionWord.isPrivileged (w : InstructionWord) : Bool :=
  w.group == 3 &&
    match w.family.toNat with
    | 1 => w.qualifier == 1
    | 2 | 4 | 6 | 7 | 15 => true
    | _ => false

end Processor64
