import Processor64.Access
import Processor64.ControlRegister
import Processor64.Registers
import Processor64.Word.Arithmetic
import Processor64.Word.BitField
import Processor64.Word.Condition

/-!
# Instructions

The instructions by what they do. An instruction has all the operands that its mnemonic has, and
some combinations of these are reserved: `isLegal` tells which may be executed.
-/

namespace Processor64

/-- The second operand of a calculation: a register, or a value in the word. -/
inductive Operand where
  | register (a : Register)
  | immediate (value : BitVec 15)
  deriving DecidableEq, Repr

/-- An address in memory: a base register plus a register or a constant. -/
inductive MemoryOperand where
  | indexed (base index : Register)
  | displaced (base : Register) (displacement : BitVec 13)
  deriving DecidableEq, Repr

/-- The four operations on a field of a register. -/
inductive FieldOp where
  | extract
  | extractSigned
  | deposit
  | depositZero
  deriving DecidableEq, Repr

/-- How far a shift-and-add shifts. -/
inductive ShiftDistance where
  | one
  | two
  | three
  deriving DecidableEq, Repr

/-- The distance in bits. -/
def ShiftDistance.bits : ShiftDistance → Nat
  | one => 1
  | two => 2
  | three => 3

/-- The part of a register that an immediate load sets. -/
inductive ImmediatePart where
  | low
  | middle
  | upper
  | top
  deriving DecidableEq, Repr

/-- The bit a branch tests: one the word names, or the one the shift amount names. -/
inductive TestedBit where
  | fixed (position : BitVec 6)
  | shiftAmount
  deriving DecidableEq, Repr

/-- An instruction with its operands, whatever word it was read from. -/
inductive Instruction where
  | nop
  | binary (op : BinaryOp) (r b : Register) (operand : Operand) (modifiers : Modifiers)
  | compare (condition : Condition) (r b : Register) (operand : Operand)
  | bitField (op : FieldOp) (r b : Register) (position last : BitVec 6)
  | doubleShift (r b a : Register)
  | shiftAdd (left : Bool) (distance : ShiftDistance) (r b a : Register)
  | loadImmediate (part : ImmediatePart) (r : Register) (value : BitVec 20)
  | loadOffset (r b : Register) (displacement : BitVec 15)
  | memoryBinary (op : BinaryOp) (width : Width) (r : Register) (operand : MemoryOperand)
      (modifiers : Modifiers)
  | memoryCompare (condition : Condition) (width : Width) (r : Register) (operand : MemoryOperand)
  | load (signed : Bool) (width : Width) (r : Register) (operand : MemoryOperand)
  | store (width : Width) (r : Register) (operand : MemoryOperand)
  | loadReserve (width : Width) (r : Register) (operand : MemoryOperand)
  | storeConditional (width : Width) (r : Register) (operand : MemoryOperand)
  | branch (r : Register) (distance : BitVec 19)
  | branchRegister (r b : Register)
  | branchIndexed (r b a : Register)
  | branchBit (sense : Bool) (r : Register) (bit : TestedBit) (distance : BitVec 13)
  | branchCompare (condition : Condition) (r b : Register) (distance : BitVec 15)
  | branchTable (b : Register) (limit : BitVec 14)
  | moveFromControl (r : Register) (control : BitVec 4)
  | moveToControl (r : Register) (control : BitVec 4)
  | physicalAddress (r b : Register)
  | probe (kind : Option AccessKind) (r b : Register)
  | tlbInsert (r b a : Register)
  | tlbPurge (b : Register)
  | tlbReset
  | cacheFlush (b : Register)
  | cachePurge (b : Register)
  | modifyStatus (on : Bool) (r : Register) (modes : BitVec 3)
  | returnFromTrap
  | trap (r : Register) (number : BitVec 13)
  | halt
  | diagnose (number : BitVec 3)
  deriving DecidableEq, Repr

/-- Whether an instruction may be executed. Reserved are modifiers that the operation does not
accept, fields that end outside the word, control registers that do not exist, a write to the
processor's description, and a probe of no kind. -/
def Instruction.isLegal : Instruction → Bool
  | binary op _ _ _ m | memoryBinary op _ _ _ m => op.accepts m
  | bitField _ _ _ position last => BitField.isValid position.toNat (last.toNat + 1)
  | moveFromControl _ c => (ControlRegister.ofNumber? c.toNat).isSome
  | moveToControl _ c => (ControlRegister.ofNumber? c.toNat).any (· ≠ .cpuInfo)
  | probe kind _ _ => kind.isSome
  | _ => true

end Processor64
