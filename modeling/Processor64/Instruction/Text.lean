import Processor64.Instruction.Decode
import Processor64.Text.Numeral

/-!
# Instruction texts

The assembler form of an instruction: the mnemonic, then the operands between commas. Registers are
numbered after an `R`, constants follow a `#`, branch distances are counted in bytes and signed.
Reserved operands have a text too; a word that is no instruction is written as its number.
-/

namespace Processor64

namespace Instruction

/-- The name of a general register. -/
def registerText (r : Register) : String := "R" ++ Numeral.decimal r.toNat

/-- A second operand: a register, or a signed number after a hash sign. -/
def operandText : Operand → String
  | .register a => registerText a
  | .immediate v => "#" ++ Numeral.integer v.toInt

/-- An address operand: an index or a displacement, and the base in parentheses. -/
def memoryText : MemoryOperand → String
  | .indexed base index => registerText index ++ "(" ++ registerText base ++ ")"
  | .displaced base v => Numeral.integer v.toInt ++ "(" ++ registerText base ++ ")"

/-- Only the modifiers that the operation accepts are written. -/
def binaryMnemonic (op : BinaryOp) (m : Modifiers) : String :=
  let complement := if m.complement then ".C" else ""
  let negate := if m.negate then ".N" else ""
  match op with
  | .add => "ADD"
  | .subtract => "SUB"
  | .and => "AND" ++ complement ++ negate
  | .or => "OR" ++ complement ++ negate
  | .xor => "XOR" ++ negate

/-- The suffix that names a width. -/
def widthSuffix : Width → String
  | .byte => ".B"
  | .half => ".H"
  | .word => ".W"
  | .double => ".D"

/-- The mnemonic of an operation on a field. -/
def fieldMnemonic : FieldOp → String
  | .extract => "EXTR"
  | .extractSigned => "EXTR.S"
  | .deposit => "DEP"
  | .depositZero => "DEP.Z"

/-- The mnemonic of a load of an immediate value. -/
def partMnemonic : ImmediatePart → String
  | .low => "LDI.L"
  | .middle => "LDI.M"
  | .upper => "LDI.U"
  | .top => "LDI.X"

/-- The suffix that names the kind of a probed access. -/
def kindSuffix : Option AccessKind → String
  | some .read => ".R"
  | some .write => ".W"
  | some .execute => ".X"
  | none => ".?"

/-- Four times a count of instructions, with its sign. -/
def distanceText {n : Nat} (d : BitVec n) : String := Numeral.distance (d.toInt * 4)

/-- The tested bit of a branch. -/
def bitText : TestedBit → String
  | .fixed p => Numeral.decimal p.toNat
  | .shiftAmount => "SHAMT"

/-- The name of a control register, or its number if it has no meaning. -/
def controlText (n : BitVec 4) : String :=
  match ControlRegister.ofNumber? n.toNat with
  | some c => c.name
  | none => "CR" ++ Numeral.decimal n.toNat

/-- The mnemonic and the operands an instruction is written with. -/
def form : Instruction → String × List String
  | nop => ("NOP", [])
  | binary op r b x m => (binaryMnemonic op m, [registerText r, registerText b, operandText x])
  | compare c r b x => ("CMP." ++ c.mnemonic, [registerText r, registerText b, operandText x])
  | bitField op r b position last =>
    (fieldMnemonic op, [registerText r, registerText b, Numeral.decimal position.toNat,
      Numeral.decimal (last.toNat + 1)])
  | doubleShift r b a => ("DSR", [registerText r, registerText b, registerText a])
  | shiftAdd left distance r b a =>
    ((if left then "SHL" else "SHR") ++ Numeral.decimal distance.bits ++ "A",
      [registerText r, registerText b, registerText a])
  | loadImmediate part r v => (partMnemonic part, [registerText r, "#" ++ Numeral.hex v.toNat])
  | loadOffset r b v =>
    ("LDO", [registerText r, Numeral.integer v.toInt ++ "(" ++ registerText b ++ ")"])
  | memoryBinary op w r x m =>
    (binaryMnemonic op m ++ widthSuffix w, [registerText r, memoryText x])
  | memoryCompare c w r x =>
    ("CMP." ++ c.mnemonic ++ widthSuffix w, [registerText r, memoryText x])
  | load signed w r x =>
    ((if signed then "LD.S" else "LD") ++ widthSuffix w, [registerText r, memoryText x])
  | store w r x => ("ST" ++ widthSuffix w, [registerText r, memoryText x])
  | loadReserve w r x => ("LDR" ++ widthSuffix w, [registerText r, memoryText x])
  | storeConditional w r x => ("STC" ++ widthSuffix w, [registerText r, memoryText x])
  | branch r d => ("B", [distanceText d, registerText r])
  | branchRegister r b => ("BR", ["(" ++ registerText b ++ ")", registerText r])
  | branchIndexed r b a =>
    ("BV", [registerText a ++ "(" ++ registerText b ++ ")", registerText r])
  | branchBit sense r bit d =>
    (if sense then "BB.T" else "BB.F", [registerText r, bitText bit, distanceText d])
  | branchCompare c r b d =>
    ("CBR." ++ c.mnemonic, [registerText r, registerText b, distanceText d])
  | branchTable b limit => ("MBR", [registerText b, "#" ++ Numeral.decimal limit.toNat])
  | moveFromControl r c => ("MFCR", [registerText r, controlText c])
  | moveToControl r c => ("MTCR", [registerText r, controlText c])
  | physicalAddress r b => ("LPA", [registerText r, "(" ++ registerText b ++ ")"])
  | probe kind r b =>
    ("PRB" ++ kindSuffix kind, [registerText r, "(" ++ registerText b ++ ")"])
  | tlbInsert r b a => ("TLB.I", [registerText r, registerText b, registerText a])
  | tlbPurge b => ("TLB.P", [registerText b])
  | tlbReset => ("TLB.R", [])
  | cacheFlush b => ("CA.F", [registerText b])
  | cachePurge b => ("CA.P", [registerText b])
  | modifyStatus on r modes =>
    (if on then "MST.S" else "MST.C", [registerText r, "#" ++ Numeral.hex modes.toNat])
  | returnFromTrap => ("RFI", [])
  | trap _ n => ("TRAP", ["#" ++ Numeral.integer n.toInt])
  | halt => ("HALT", [])
  | diagnose n => ("DIAG", ["#" ++ Numeral.decimal n.toNat])

/-- An instruction as a listing shows it. -/
def text (i : Instruction) : String :=
  match i.form with
  | (mnemonic, []) => mnemonic
  | (mnemonic, operands) => mnemonic ++ " " ++ ", ".intercalate operands

end Instruction

/-- A word as a listing shows it; one that holds no instruction is shown as it is. -/
def InstructionWord.text (w : InstructionWord) : String :=
  match Instruction.ofWord? w with
  | some i => i.text
  | none => "ILLEGAL " ++ Numeral.hexFilled 8 w.toNat

end Processor64
