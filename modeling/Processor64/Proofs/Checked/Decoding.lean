import Processor64.Instruction.Decode
import Processor64.Proofs.Checked.Words

/-!
# Decoding, step by step

The fields of an instruction word, taken from it by shifts and masks and kept as plain numbers,
whether the instruction has them or not (`Checked.fields`). The shifts stay below the width of the
word, so a word always has its fields, and they are those that instructions are decoded from
(`Checked.fields_eq`). What a qualifier stands for is read off its bits.
-/

namespace Processor64

/-- The fields of a word as the integers they are computed in. -/
structure Fields where
  word : InstructionWord
  group : Nat
  family : Nat
  qualifier : Nat
  r : Nat
  b : Nat
  a : Nat
  widthCode : Nat
  bitPosition : Nat
  imm13 : Word
  imm15 : Word
  imm19 : Word
  imm20 : Word

/-- The fields of a word as it is decoded without checks. -/
def InstructionWord.fields (w : InstructionWord) : Fields where
  word := w
  group := w.group.toNat
  family := w.family.toNat
  qualifier := w.qualifier.toNat
  r := w.r.toNat
  b := w.b.toNat
  a := w.a.toNat
  widthCode := w.widthCode.toNat
  bitPosition := w.bitPosition.toNat
  imm13 := w.imm13.signExtend 64
  imm15 := w.imm15.signExtend 64
  imm19 := w.imm19.signExtend 64
  imm20 := w.imm20.setWidth 64

theorem InstructionWord.group_cases (w : InstructionWord) :
    w.group = 0 ∨ w.group = 1 ∨ w.group = 2 ∨ w.group = 3 := by
  have h : ∀ g : BitVec 2, g = 0 ∨ g = 1 ∨ g = 2 ∨ g = 3 := by decide
  exact h _

namespace Checked

/-- The bits of a mask after a shift. -/
def field (w : InstructionWord) (pos mask : Nat) : Except Failure Nat :=
  return (← shiftRight w pos).toNat &&& mask

/-- The fields of a word; overlapping ones are kept side by side. -/
def fields (w : InstructionWord) : Except Failure Fields :=
  return {
    word := w
    group := ← field w 30 0x3
    family := ← field w 26 0xF
    qualifier := ← field w 19 0x7
    r := ← field w 22 0xF
    b := ← field w 15 0xF
    a := ← field w 9 0xF
    widthCode := ← field w 13 0x3
    bitPosition := ← field w 13 0x3F
    imm13 := ← signExtend (w.setWidth 64) 13
    imm15 := ← signExtend (w.setWidth 64) 15
    imm19 := ← signExtend (w.setWidth 64) 19
    imm20 := (w &&& 0xFFFFF).setWidth 64 }

theorem toNat_and_low {n : Nat} (v : BitVec n) (pos len : Nat) :
    (v >>> pos).toNat &&& (2 ^ len - 1) = (v.extractLsb' pos len).toNat := by
  rw [BitVec.toNat_ushiftRight, BitVec.extractLsb'_toNat, Nat.and_two_pow_sub_one_eq_mod]

/-- A field is cut out without an oversized shift. -/
theorem field_eq (w : InstructionWord) {pos : Nat} (len : Nat) (h : pos < 32) :
    field w pos (2 ^ len - 1) = .ok (w.extractLsb' pos len).toNat := by
  rw [field, shiftRight_of_lt h, ok_bind, toNat_and_low, pure_eq_ok]

/-- A low field is extended without an oversized shift. -/
theorem signExtend_low (w : InstructionWord) {len : Nat} (h₀ : 0 < len) (h : len ≤ 32) :
    signExtend (w.setWidth 64) len = .ok ((w.extractLsb' 0 len).signExtend 64) := by
  have hlow : (w.setWidth 64).setWidth len = w.extractLsb' 0 len := by
    ext i hi
    simp
  rw [signExtend_eq _ h₀, BitField.signExtend, Nat.min_eq_left (by omega), hlow]

theorem and_imm20 (w : InstructionWord) :
    (w &&& 0xFFFFF).setWidth 64 = w.imm20.setWidth 64 := by
  apply BitVec.eq_of_toNat_eq
  have hmask : w.toNat &&& 0xFFFFF = w.toNat % 2 ^ 20 := Nat.and_two_pow_sub_one_eq_mod w.toNat 20
  rw [BitVec.toNat_setWidth, BitVec.toNat_setWidth, BitVec.toNat_and, InstructionWord.imm20,
    BitVec.extractLsb'_toNat, Nat.shiftRight_zero]
  exact congrArg (· % 2 ^ 64) hmask

/-- Every word has its fields. -/
theorem fields_eq (w : InstructionWord) : fields w = .ok w.fields := by
  have hgroup : field w 30 0x3 = .ok w.group.toNat := field_eq w 2 (by decide)
  have hfamily : field w 26 0xF = .ok w.family.toNat := field_eq w 4 (by decide)
  have hqualifier : field w 19 0x7 = .ok w.qualifier.toNat := field_eq w 3 (by decide)
  have hr : field w 22 0xF = .ok w.r.toNat := field_eq w 4 (by decide)
  have hb : field w 15 0xF = .ok w.b.toNat := field_eq w 4 (by decide)
  have ha : field w 9 0xF = .ok w.a.toNat := field_eq w 4 (by decide)
  have hwidth : field w 13 0x3 = .ok w.widthCode.toNat := field_eq w 2 (by decide)
  have hbit : field w 13 0x3F = .ok w.bitPosition.toNat := field_eq w 6 (by decide)
  simp only [fields, hgroup, hfamily, hqualifier, hr, hb, ha, hwidth, hbit, ok_bind,
    signExtend_low w (show 0 < 13 by decide) (by decide),
    signExtend_low w (show 0 < 15 by decide) (by decide),
    signExtend_low w (show 0 < 19 by decide) (by decide), and_imm20]
  rfl

/-! ## What fields stand for -/

/-- The operation of a family. Not every family has one. -/
def operation (family : Nat) : Except Failure BinaryOp :=
  match family with
  | 1 => .ok .add
  | 2 => .ok .subtract
  | 3 => .ok .and
  | 4 => .ok .or
  | 5 => .ok .xor
  | _ => .error .operation

def modifiers (qualifier : Nat) : Modifiers := ⟨qualifier &&& 2 ≠ 0, qualifier &&& 4 ≠ 0⟩

def compareCondition (bits : Nat) : Condition :=
  match bits &&& 3 with
  | 0 => .equal
  | 1 => .less
  | 2 => .notEqual
  | _ => .lessOrEqual

def branchCondition (bits : Nat) : Condition :=
  match bits &&& 7 with
  | 0 => .equal
  | 1 => .notEqual
  | 2 => .less
  | 3 => .lessOrEqual
  | 4 => .greater
  | 5 => .greaterOrEqual
  | 6 => .lessUnsigned
  | _ => .greaterOrEqualUnsigned

def width (code : Nat) : Width :=
  match code &&& 3 with
  | 0 => .byte
  | 1 => .half
  | 2 => .word
  | _ => .double

/-- First bit and length of a bit field, in the low bits of a constant. -/
def fieldBounds (imm : Word) : Except Failure (Nat × Nat) := do
  let v := imm.setWidth 32
  return ((← shiftRight v 6).toNat &&& 0x3F, ← sum 32 (v.toNat &&& 0x3F) 1)

def isValid (pos len : Nat) : Except Failure Bool :=
  return 1 ≤ len && (← sum 32 pos len) ≤ 64

/-- Distance of a shift, and whether it is to the left. -/
def shiftDistance? (qualifier : Nat) : Except Failure (Option (Nat × Bool)) :=
  if qualifier ≤ 2 then return some (← sum 32 qualifier 1, true)
  else if 4 ≤ qualifier ∧ qualifier ≤ 6 then return some (← difference qualifier 3, false)
  else return none

variable (w : InstructionWord)

theorem qualifier_and_one : w.fields.qualifier &&& 1 ≠ 0 ↔ w.qualifier.getLsbD 0 = true := by
  have h : ∀ q : BitVec 3, q.toNat &&& 1 ≠ 0 ↔ q[0] = true := by decide
  exact h _

theorem qualifier_and_two : w.fields.qualifier &&& 2 ≠ 0 ↔ w.qualifier.getLsbD 1 = true := by
  have h : ∀ q : BitVec 3, q.toNat &&& 2 ≠ 0 ↔ q[1] = true := by decide
  exact h _

theorem decide_qualifier_and_two :
    decide (w.fields.qualifier &&& 2 ≠ 0) = w.qualifier.getLsbD 1 := by
  rw [Bool.eq_iff_iff, decide_eq_true_iff]
  exact qualifier_and_two w

theorem modifiers_eq : modifiers w.fields.qualifier = w.modifiers := by
  have h : ∀ q : BitVec 3, modifiers q.toNat = ⟨q[1], q[2]⟩ := by decide
  exact h _

/-- The lowest bit of a qualifier is no modifier. -/
theorem modifiers_and_six : modifiers (w.fields.qualifier &&& 6) = w.modifiers := by
  have h : ∀ q : BitVec 3, modifiers (q.toNat &&& 6) = ⟨q[1], q[2]⟩ := by decide
  exact h _

theorem compareCondition_eq : compareCondition (w.fields.qualifier >>> 1) = w.compareCondition := by
  have h : ∀ q : BitVec 3, compareCondition (q.toNat >>> 1) =
      .ofCompareCode (q.extractLsb' 1 2) := by decide
  exact h _

theorem branchCondition_eq : branchCondition w.fields.qualifier = .ofBranchCode w.qualifier := by
  have h : ∀ q : BitVec 3, branchCondition q.toNat = .ofBranchCode q := by decide
  exact h _

theorem width_eq : width w.fields.widthCode = w.width := by
  have h : ∀ c : BitVec 2, width c.toNat = .ofCode c := by decide
  exact h _

/-- The copies of the sign stand above a constant and do not change its bits. -/
theorem extractLsb'_signExtend {n : Nat} (v : BitVec n) {pos len : Nat} (h : pos + len ≤ n)
    (hn : n ≤ 64) : (v.signExtend 64).extractLsb' pos len = v.extractLsb' pos len := by
  ext i hi
  simp [BitVec.getElem_signExtend, show pos + i < n by omega, show pos + i < 64 by omega]

theorem fieldBounds_eq : fieldBounds w.fields.imm13 =
    .ok (w.fieldPosition.toNat, w.fieldLast.toNat + 1) := by
  have hlow (pos : Nat) (h : pos ≤ 6) :
      (w.fields.imm13.setWidth 32).extractLsb' pos 6 = w.extractLsb' pos 6 := by
    ext i hi
    simp [InstructionWord.fields, InstructionWord.imm13, BitVec.getElem_signExtend,
      show pos + i < 13 by omega, show pos + i < 32 by omega, show pos + i < 64 by omega]
  have hposition : (w.fields.imm13.setWidth 32 >>> 6).toNat &&& 0x3F = w.fieldPosition.toNat := by
    rw [InstructionWord.fieldPosition, ← hlow 6 (by decide)]
    exact toNat_and_low (w.fields.imm13.setWidth 32) 6 6
  have hlast : (w.fields.imm13.setWidth 32).toNat &&& 0x3F = w.fieldLast.toNat := by
    rw [InstructionWord.fieldLast, ← hlow 0 (by decide)]
    exact toNat_and_low (w.fields.imm13.setWidth 32) 0 6
  have hlt := w.fieldLast.isLt
  simp only [fieldBounds, shiftRight_of_lt (show 6 < 32 by decide), ok_bind]
  rw [hposition, hlast, sum_of_lt (by omega)]
  rfl

/-- The limit of a table, in the low bits of a constant. -/
theorem imm15_and : (w.fields.imm15 &&& 0x3FFF).toNat = (w.imm15.extractLsb' 0 14).toNat := by
  rw [← extractLsb'_signExtend w.imm15 (show 0 + 14 ≤ 15 by decide) (by decide)]
  exact toNat_and_low w.fields.imm15 0 14

theorem shiftDistance?_eq_none {q : Nat} (h : q = 3 ∨ 7 ≤ q) : shiftDistance? q = .ok none := by
  rw [shiftDistance?, if_neg (by omega), if_neg (by omega), pure_eq_ok]

theorem isValid_eq {pos len : Nat} (hpos : pos < 64) (hlen : len ≤ 64) :
    isValid pos len = .ok (BitField.isValid pos len) := by
  rw [isValid, sum_of_lt (by omega)]
  rfl

end Checked

end Processor64
