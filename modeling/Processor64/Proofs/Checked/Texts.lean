import Processor64.Instruction.Text
import Processor64.Proofs.Checked.Decoding

/-!
# Texts, step by step

The text of an instruction word, written from its fields with every place of a table of names and
every number in it checked (`Checked.text`). It is the text of the instruction that the word is
(`Checked.text_eq`).
-/

namespace Processor64.Checked

/-! ## Names and operands -/

/-- An entry of a table of names, if the index is in range. -/
def entry (names : List String) (i : Nat) : Except Failure String :=
  match names[i]? with
  | some s => .ok s
  | none => .error .index

variable (d : Fields)

def registerText (n : Nat) : String := "R" ++ Numeral.decimal n

def operandText : String :=
  if d.qualifier &&& 1 ≠ 0 then "#" ++ Numeral.integer d.imm15.toInt else registerText d.a

def memoryText : String :=
  if d.qualifier &&& 1 ≠ 0 then registerText d.a ++ "(" ++ registerText d.b ++ ")"
  else Numeral.integer d.imm13.toInt ++ "(" ++ registerText d.b ++ ")"

def distanceText (offset : Word) : Except Failure String :=
  return Numeral.distance (← signedProduct offset.toInt 4)

def controlText (n : Nat) : String :=
  match ControlRegister.ofNumber? n with
  | some c => c.name
  | none => "CR" ++ Numeral.decimal n

/-- The name of a logical operation with its modifiers. -/
def logicName (name : String) (complement : Bool) : String :=
  name ++ (if complement && (modifiers d.qualifier).complement then ".C" else "") ++
    (if (modifiers d.qualifier).negate then ".N" else "")

def binaryName (family : Nat) : String :=
  match family with
  | 1 => "ADD"
  | 2 => "SUB"
  | 3 => logicName d "AND" true
  | 4 => logicName d "OR" true
  | _ => logicName d "XOR" false

/-! ## Groups -/

def fieldForm : Except Failure (Option (String × List String)) := do
  let (position, length) ← fieldBounds d.imm13
  let field (name : String) := some (name, [registerText d.r, registerText d.b,
    Numeral.decimal position, Numeral.decimal length])
  return match d.qualifier with
    | 0 => field "EXTR"
    | 1 => field "EXTR.S"
    | 2 => field "DEP"
    | 3 => field "DEP.Z"
    | 4 => some ("DSR", [registerText d.r, registerText d.b, registerText d.a])
    | _ => none

def shiftForm : Except Failure (Option (String × List String)) := do
  match ← shiftDistance? d.qualifier with
  | some (amount, left) =>
    return some ((if left then "SHL" else "SHR") ++ Numeral.decimal amount ++ "A",
      [registerText d.r, registerText d.b, registerText d.a])
  | none => return none

def arithmeticForm : Except Failure (Option (String × List String)) :=
  match d.family with
  | 0 => return some ("NOP", [])
  | 1 | 2 | 3 | 4 | 5 =>
    return some (binaryName d d.family, [registerText d.r, registerText d.b, operandText d])
  | 6 =>
    return some ("CMP." ++ (compareCondition (d.qualifier >>> 1)).mnemonic,
      [registerText d.r, registerText d.b, operandText d])
  | 7 => fieldForm d
  | 8 => shiftForm d
  | 9 => do
    let name ← entry ["LDI.L", "LDI.M", "LDI.U", "LDI.X"] (d.qualifier >>> 1 &&& 3)
    return some (name, [registerText d.r, "#" ++ Numeral.hex d.imm20.toNat])
  | 10 =>
    return some ("LDO", [registerText d.r,
      Numeral.integer d.imm15.toInt ++ "(" ++ registerText d.b ++ ")"])
  | _ => return none

def memoryName? : Option String :=
  match d.family with
  | 1 | 2 | 3 | 4 | 5 => some (binaryName d d.family)
  | 6 => some ("CMP." ++ (compareCondition (d.qualifier >>> 1)).mnemonic)
  | 8 => some (if d.qualifier &&& 2 ≠ 0 then "LD.S" else "LD")
  | 9 => some "ST"
  | 10 => some "LDR"
  | 11 => some "STC"
  | _ => none

def memoryForm : Except Failure (Option (String × List String)) := do
  let suffix ← entry [".B", ".H", ".W", ".D"] (d.widthCode &&& 3)
  return (memoryName? d).map fun name => (name ++ suffix, [registerText d.r, memoryText d])

def branchForm : Except Failure (Option (String × List String)) :=
  match d.family with
  | 1 => do return some ("B", [← distanceText d.imm19, registerText d.r])
  | 2 => return some ("BR", ["(" ++ registerText d.b ++ ")", registerText d.r])
  | 3 =>
    return some ("BV", [registerText d.a ++ "(" ++ registerText d.b ++ ")", registerText d.r])
  | 4 => do
    let tested := if d.qualifier &&& 2 ≠ 0 then "SHAMT" else Numeral.decimal d.bitPosition
    return some (if d.qualifier &&& 1 ≠ 0 then "BB.T" else "BB.F",
      [registerText d.r, tested, ← distanceText d.imm13])
  | 5 => do
    return some ("CBR." ++ (branchCondition d.qualifier).mnemonic,
      [registerText d.r, registerText d.b, ← distanceText d.imm15])
  | 6 => return some ("MBR", [registerText d.b, "#" ++ Numeral.decimal (d.imm15 &&& 0x3FFF).toNat])
  | _ => return none

def systemForm : Except Failure (Option (String × List String)) :=
  match d.family, d.qualifier with
  | 1, 0 => return some ("MFCR", [registerText d.r, controlText d.b])
  | 1, 1 => return some ("MTCR", [registerText d.r, controlText d.b])
  | 2, _ => return some ("LPA", [registerText d.r, "(" ++ registerText d.b ++ ")"])
  | 3, q => do
    let kind ← entry [".R", ".W", ".X", ".?"] (q &&& 3)
    return some ("PRB" ++ kind, [registerText d.r, "(" ++ registerText d.b ++ ")"])
  | 4, 0 => return some ("TLB.I", [registerText d.r, registerText d.b, registerText d.a])
  | 4, 1 => return some ("TLB.P", [registerText d.b])
  | 4, 2 => return some ("TLB.R", [])
  | 5, 0 => return some ("CA.F", [registerText d.b])
  | 5, 1 => return some ("CA.P", [registerText d.b])
  | 6, 0 => return some ("MST.S", [registerText d.r, "#" ++ Numeral.hex (d.imm13 &&& 7).toNat])
  | 6, 1 => return some ("MST.C", [registerText d.r, "#" ++ Numeral.hex (d.imm13 &&& 7).toNat])
  | 7, _ => return some ("RFI", [])
  | 14, _ => return some ("TRAP", ["#" ++ Numeral.integer d.imm13.toInt])
  | 15, 7 => return some ("HALT", [])
  | 15, q => return some ("DIAG", ["#" ++ Numeral.decimal q])
  | _, _ => return none

/-- The mnemonic and the operands of a word, with its look-ups checked. -/
def form (w : InstructionWord) : Except Failure (Option (String × List String)) := do
  let d ← fields w
  match d.group with
  | 0 => arithmeticForm d
  | 1 => memoryForm d
  | 2 => branchForm d
  | _ => systemForm d

/-- A word as a listing shows it, with its look-ups checked. -/
def text (w : InstructionWord) : Except Failure String := do
  match ← form w with
  | some (name, []) => return name
  | some (name, operands) => return name ++ " " ++ ", ".intercalate operands
  | none => return "ILLEGAL " ++ Numeral.hexFilled 8 w.toNat

/-! ## The texts of instructions -/

variable (w : InstructionWord)

theorem toInt_imm {n : Nat} (v : BitVec n) (h : n ≤ 64) : (v.signExtend 64).toInt = v.toInt :=
  BitVec.toInt_signExtend_of_le h

theorem operandText_eq : operandText w.fields = Instruction.operandText w.operand := by
  unfold operandText InstructionWord.operand
  by_cases h : w.qualifier[0] = true
  · rw [if_pos ((qualifier_and_one w).mpr h), if_pos h]
    exact congrArg (fun i => "#" ++ Numeral.integer i) (toInt_imm w.imm15 (by decide))
  · rw [if_neg (fun hq => h ((qualifier_and_one w).mp hq)), if_neg h]
    rfl

theorem memoryText_eq : memoryText w.fields = Instruction.memoryText w.memoryOperand := by
  unfold memoryText InstructionWord.memoryOperand
  by_cases h : w.qualifier[0] = true
  · rw [if_pos ((qualifier_and_one w).mpr h), if_pos h]
    rfl
  · rw [if_neg (fun hq => h ((qualifier_and_one w).mp hq)), if_neg h]
    exact congrArg (fun i => Numeral.integer i ++ "(" ++ registerText w.b.toNat ++ ")")
      (toInt_imm w.imm13 (by decide))

/-- A distance of at most 32 bits stays within 64. -/
theorem distanceText_eq {n : Nat} (v : BitVec n) (h : n ≤ 32) :
    distanceText (v.signExtend 64) = .ok (Instruction.distanceText v) := by
  have hpow : (2 : Int) ^ n ≤ 2 ^ 32 := by exact_mod_cast Nat.pow_le_pow_right (by decide) h
  have hlow : -2 ^ n ≤ 2 * v.toInt := BitVec.le_two_mul_toInt
  have hhigh : 2 * v.toInt < 2 ^ n := BitVec.two_mul_toInt_lt
  rw [distanceText, toInt_imm v (by omega), signedProduct_of_lt (by omega) (by omega), ok_bind]
  rfl

theorem binaryName_eq {op : BinaryOp} {n : Nat} (hop : operation n = .ok op) :
    binaryName w.fields n = Instruction.binaryMnemonic op w.modifiers := by
  unfold binaryName logicName
  rw [modifiers_eq]
  unfold operation at hop
  split at hop <;> cases hop <;> simp [Instruction.binaryMnemonic]

theorem imm13_and : (w.fields.imm13 &&& 7).toNat = (w.imm13.extractLsb' 0 3).toNat := by
  rw [← extractLsb'_signExtend w.imm13 (show 0 + 3 ≤ 13 by decide) (by decide)]
  exact toNat_and_low w.fields.imm13 0 3

variable {w}

theorem fieldForm_eq :
    fieldForm w.fields = .ok ((Instruction.ofBitFieldWord? w).map Instruction.form) := by
  unfold fieldForm Instruction.ofBitFieldWord?
  rw [fieldBounds_eq, ok_bind]
  generalize hq : w.qualifier.toNat = q
  have hq : w.fields.qualifier = q := hq
  rw [hq]
  match q with
  | 0 | 1 | 2 | 3 | 4 | n + 5 => rfl

theorem shiftForm_eq :
    shiftForm w.fields = .ok ((Instruction.ofShiftAddWord? w).map Instruction.form) := by
  have hnone (h : w.fields.qualifier = 3 ∨ 7 ≤ w.fields.qualifier) :
      shiftForm w.fields = .ok none := by
    rw [shiftForm, shiftDistance?_eq_none h, ok_bind]
    rfl
  unfold Instruction.ofShiftAddWord?
  generalize hq : w.qualifier.toNat = q
  have hq : w.fields.qualifier = q := hq
  match q with
  | 0 | 1 | 2 | 4 | 5 | 6 =>
    unfold shiftForm
    rw [hq]
    rfl
  | 3 => exact hnone (.inl hq)
  | n + 7 => exact hnone (.inr (by omega))

theorem entry_of_some {names : List String} {i : Nat} {s : String} (h : names[i]? = some s) :
    entry names i = .ok s := by
  rw [entry, h]

theorem partName_eq : entry ["LDI.L", "LDI.M", "LDI.U", "LDI.X"] (w.fields.qualifier >>> 1 &&& 3) =
    .ok (Instruction.partMnemonic w.immediatePart) := by
  have h : ∀ q : BitVec 3, q.toNat >>> 1 &&& 3 = 2 * q[2].toNat + q[1].toNat := by decide
  rw [show w.fields.qualifier >>> 1 &&& 3 = _ from h w.qualifier, InstructionWord.immediatePart]
  rcases w.qualifier[2] <;> rcases w.qualifier[1] <;> rfl

theorem widthSuffix_eq : entry [".B", ".H", ".W", ".D"] (w.fields.widthCode &&& 3) =
    .ok (Instruction.widthSuffix w.width) := by
  have h : ∀ c : BitVec 2, [".B", ".H", ".W", ".D"][c.toNat &&& 3]? =
      some (Instruction.widthSuffix (.ofCode c)) := by decide
  exact entry_of_some (h _)

theorem kindSuffix_eq : entry [".R", ".W", ".X", ".?"] (w.fields.qualifier &&& 3) =
    .ok (Instruction.kindSuffix (AccessKind.ofCode? (w.qualifier.toNat % 4))) := by
  have h : ∀ q : BitVec 3, [".R", ".W", ".X", ".?"][q.toNat &&& 3]? =
      some (Instruction.kindSuffix (AccessKind.ofCode? (q.toNat % 4))) := by decide
  exact entry_of_some (h _)

theorem arithmeticForm_eq :
    arithmeticForm w.fields = .ok ((Instruction.ofArithmeticWord? w).map Instruction.form) := by
  unfold arithmeticForm Instruction.ofArithmeticWord?
  rw [operandText_eq, compareCondition_eq]
  generalize hf : w.family.toNat = n
  have hf : w.fields.family = n := hf
  rw [hf]
  match n with
  | 0 | n + 11 => rfl
  | 1 | 2 | 3 | 4 | 5 =>
    rw [binaryName_eq w rfl]
    rfl
  | 6 => rfl
  | 7 => exact fieldForm_eq
  | 8 => exact shiftForm_eq
  | 9 =>
    have hvalue : (w.imm20.setWidth 64).toNat = w.imm20.toNat :=
      BitVec.toNat_setWidth_of_le (by decide)
    rw [partName_eq, ok_bind, show w.fields.imm20.toNat = w.imm20.toNat from hvalue]
    rfl
  | 10 =>
    rw [show w.fields.imm15.toInt = w.imm15.toInt from toInt_imm w.imm15 (by decide)]
    rfl

theorem memoryForm_eq :
    memoryForm w.fields = .ok ((Instruction.ofMemoryWord? w).map Instruction.form) := by
  unfold memoryForm memoryName? Instruction.ofMemoryWord?
  rw [widthSuffix_eq, ok_bind, memoryText_eq, compareCondition_eq]
  generalize hf : w.family.toNat = n
  have hf : w.fields.family = n := hf
  rw [hf]
  match n with
  | 0 | 7 | n + 12 => rfl
  | 1 | 2 | 3 | 4 | 5 =>
    rw [binaryName_eq w rfl]
    rfl
  | 6 | 9 | 10 | 11 => rfl
  | 8 =>
    simp only [qualifier_and_two]
    rfl

theorem branchForm_eq :
    branchForm w.fields = .ok ((Instruction.ofBranchWord? w).map Instruction.form) := by
  have h13 : distanceText w.fields.imm13 = _ := distanceText_eq w.imm13 (by decide)
  have h15 : distanceText w.fields.imm15 = _ := distanceText_eq w.imm15 (by decide)
  have h19 : distanceText w.fields.imm19 = _ := distanceText_eq w.imm19 (by decide)
  unfold branchForm Instruction.ofBranchWord?
  rw [h13, h15, h19, branchCondition_eq, imm15_and]
  generalize hf : w.family.toNat = n
  have hf : w.fields.family = n := hf
  rw [hf]
  match n with
  | 0 | n + 7 => rfl
  | 1 | 2 | 3 | 5 | 6 => rfl
  | 4 =>
    have hshift : w.fields.qualifier &&& 2 ≠ 0 ↔ w.qualifier[1] = true := qualifier_and_two w
    unfold InstructionWord.testedBit
    simp only [hshift, qualifier_and_one]
    rcases w.qualifier[1] <;> rfl

/-- A system word is formatted without an index out of range. -/
theorem systemForm_eq :
    systemForm w.fields = .ok ((Instruction.ofSystemWord? w).map Instruction.form) := by
  have hkind := kindSuffix_eq (w := w)
  unfold systemForm Instruction.ofSystemWord?
  rw [imm13_and, show w.fields.imm13.toInt = w.imm13.toInt from toInt_imm w.imm13 (by decide)]
  generalize hf : w.family.toNat = n
  have hf : w.fields.family = n := hf
  generalize hw : w.qualifier.toNat = q at hkind
  have hq : w.fields.qualifier = q := hw
  rw [hq] at hkind
  rw [hf, hq]
  match n, q with
  | 3, q =>
    show (entry [".R", ".W", ".X", ".?"] (q &&& 3) >>= fun kind =>
      Except.ok (some ("PRB" ++ kind, _))) = _
    rw [hkind]
    rfl
  | 1, 0 | 1, 1 | 2, _ | 4, 0 | 4, 1 | 4, 2 | 5, 0 | 5, 1 | 6, 0 | 6, 1 | 7, _ | 14, _ => rfl
  | 15, 7 => rfl
  | 15, 0 | 15, 1 | 15, 2 | 15, 3 | 15, 4 | 15, 5 | 15, 6 | 15, k + 8 =>
    exact congrArg (fun k => Except.ok (some ("DIAG", ["#" ++ Numeral.decimal k]))) hw.symm
  | 1, k + 2 | 4, k + 3 | 5, k + 2 | 6, k + 2 => rfl
  | 0, _ | 8, _ | 9, _ | 10, _ | 11, _ | 12, _ | 13, _ | k + 16, _ => rfl

/-- Every word has a text. -/
theorem text_eq (w : InstructionWord) : text w = .ok w.text := by
  have hform : form w = .ok ((Instruction.ofWord? w).map Instruction.form) := by
    have hfield : w.fields.group = w.group.toNat := rfl
    rw [form, fields_eq, ok_bind, hfield, Instruction.ofWord?]
    rcases w.group_cases with hg | hg | hg | hg <;> rw [hg]
    · exact arithmeticForm_eq
    · exact memoryForm_eq
    · exact branchForm_eq
    · exact systemForm_eq
  rw [text, hform, ok_bind, InstructionWord.text]
  rcases Instruction.ofWord? w with _ | i
  · rfl
  · simp only [Option.map_some, Instruction.text]
    rcases i.form with ⟨name, _ | ⟨x, xs⟩⟩ <;> rfl

end Processor64.Checked
