import Mathlib.Algebra.GroupWithZero.Nat
import Mathlib.Algebra.Ring.Int.Defs
import Processor64.Instruction

/-!
# Words, step by step

Here every step on numbers and words is checked, and a step that has no result ends in a `Failure`:
a sum or a product that its bits do not hold, a difference below zero, a shift by the whole width.
Masks, bit fields and widenings are then put together from such steps, as a processor would do it.
Each has a result within the bounds that its lemma names, and then it is the one that is defined
without any checks.
-/

namespace Processor64

/-- What a step may run into that has no result. -/
inductive Failure where
  /-- A sum, a difference or a product that its bits do not hold. -/
  | overflow
  /-- A shift by the width of the word or more. -/
  | shift
  /-- A run of bytes that is not in its store. -/
  | range
  /-- A place beyond the end of a table. -/
  | index
  /-- A register number from 16 on. -/
  | register
  /-- The number of no operation. -/
  | operation
  /-- A read that traps although its preview did not. -/
  | reread
  deriving DecidableEq, Repr

namespace Checked

@[simp]
theorem pure_eq_ok {α : Type} (a : α) : (pure a : Except Failure α) = .ok a := rfl

@[simp]
theorem ok_bind {α β : Type} (a : α) (f : α → Except Failure β) : (.ok a >>= f) = f a := rfl

/-! ## Numbers -/

/-- A sum that must fit. -/
def sum (bits a b : Nat) : Except Failure Nat :=
  if a + b < 2 ^ bits then .ok (a + b) else .error .overflow

/-- A difference that must not be negative. -/
def difference (a b : Nat) : Except Failure Nat :=
  if b ≤ a then .ok (a - b) else .error .overflow

def product (bits a b : Nat) : Except Failure Nat :=
  if a * b < 2 ^ bits then .ok (a * b) else .error .overflow

/-- The product of two signed words. -/
def signedProduct (a b : Int) : Except Failure Int :=
  if -2 ^ 63 ≤ a * b ∧ a * b < 2 ^ 63 then .ok (a * b) else .error .overflow

/-- A shift by less than the width. -/
def shiftLeft {n : Nat} (v : BitVec n) (k : Nat) : Except Failure (BitVec n) :=
  if k < n then .ok (v <<< k) else .error .shift

def shiftRight {n : Nat} (v : BitVec n) (k : Nat) : Except Failure (BitVec n) :=
  if k < n then .ok (v >>> k) else .error .shift

/-- Shifts right and copies the sign. -/
def signedShiftRight {n : Nat} (v : BitVec n) (k : Nat) : Except Failure (BitVec n) :=
  if k < n then .ok (v.sshiftRight k) else .error .shift

section

variable {n bits a b k : Nat} {v : BitVec n}

theorem sum_of_lt (h : a + b < 2 ^ bits) : sum bits a b = .ok (a + b) := if_pos h

theorem difference_of_le (h : b ≤ a) : difference a b = .ok (a - b) := if_pos h

theorem product_of_lt (h : a * b < 2 ^ bits) : product bits a b = .ok (a * b) := if_pos h

theorem signedProduct_of_lt {a b : Int} (h : -2 ^ 63 ≤ a * b) (h' : a * b < 2 ^ 63) :
    signedProduct a b = .ok (a * b) := if_pos ⟨h, h'⟩

theorem shiftLeft_of_lt (h : k < n) : shiftLeft v k = .ok (v <<< k) := if_pos h

theorem shiftRight_of_lt (h : k < n) : shiftRight v k = .ok (v >>> k) := if_pos h

theorem signedShiftRight_of_lt (h : k < n) : signedShiftRight v k = .ok (v.sshiftRight k) :=
  if_pos h

end

/-! ## Bit fields -/

/-- The low `len` bits of a word. -/
def lowMask (len : Nat) : Except Failure Word :=
  if 64 ≤ len then .ok (BitVec.allOnes 64)
  else do
    let bit ← shiftLeft (1 : Word) len
    return BitVec.ofNat 64 (← difference bit.toNat 1)

/-- Copies bit `len - 1` of a word into all bits above it. -/
def signExtend (v : Word) (len : Nat) : Except Failure Word :=
  if 64 ≤ len then .ok v
  else do
    let shift ← difference 64 len
    signedShiftRight (← shiftLeft v shift) shift

def extract (v : Word) (pos len : Nat) (signed : Bool) : Except Failure Word := do
  let field := (← shiftRight v pos) &&& (← lowMask len)
  if signed && len < 64 then signExtend field len else return field

def deposit (target v : Word) (pos len : Nat) : Except Failure Word := do
  let mask ← shiftLeft (← lowMask len) pos
  return (target &&& ~~~mask) ||| ((← shiftLeft v pos) &&& mask)

def doubleShiftRight (high low : Word) (amount : Nat) : Except Failure Word := do
  let wide := (← shiftLeft (high.setWidth 128) 64) ||| low.setWidth 128
  return (← shiftRight wide (amount &&& 63)).setWidth 64

variable {v target high low : Word} {pos len : Nat} {signed : Bool}

theorem toNat_lowMask (h : len ≤ 64) : (BitField.lowMask len).toNat = 2 ^ len - 1 := by
  have hlt : 2 ^ len - 1 < 2 ^ 64 :=
    Nat.lt_of_lt_of_le (Nat.sub_lt (Nat.two_pow_pos len) Nat.one_pos)
      (Nat.pow_le_pow_right (by decide) h)
  rw [BitField.lowMask, Nat.min_eq_left h, BitVec.toNat_setWidth, BitVec.toNat_allOnes,
    Nat.mod_eq_of_lt hlt]

theorem lowMask_eq (len : Nat) : lowMask len = .ok (BitField.lowMask len) := by
  unfold lowMask
  split
  · rename_i h
    rw [BitField.lowMask, Nat.min_eq_right h]
    rfl
  · rename_i h
    have hlen : len < 64 := Nat.lt_of_not_le h
    have hpow : 2 ^ len < 2 ^ 64 := Nat.pow_lt_pow_right (by decide) hlen
    have hbit : ((1 : Word) <<< len).toNat = 2 ^ len := by
      rw [BitVec.toNat_shiftLeft, Nat.shiftLeft_eq, show (1 : Word).toNat = 1 from rfl,
        Nat.one_mul, Nat.mod_eq_of_lt hpow]
    have hmask : BitVec.ofNat 64 (2 ^ len - 1) = BitField.lowMask len := by
      apply BitVec.eq_of_toNat_eq
      rw [toNat_lowMask (Nat.le_of_lt hlen), BitVec.toNat_ofNat]
      exact Nat.mod_eq_of_lt (by omega)
    rw [shiftLeft_of_lt hlen, ok_bind, hbit, difference_of_le Nat.one_le_two_pow, ok_bind, hmask,
      pure_eq_ok]

/-- Shifting a field up to the sign and back copies its top bit. -/
theorem sshiftRight_shiftLeft (v : Word) (h₀ : 0 < len) (h : len ≤ 64) :
    (v <<< (64 - len)).sshiftRight (64 - len) = (v.setWidth len).signExtend 64 := by
  have hmsb : (v <<< (64 - len)).msb = (v.setWidth len).msb := by
    rw [BitVec.msb_eq_getLsbD_last, BitVec.msb_eq_getLsbD_last, BitVec.getLsbD_shiftLeft,
      BitVec.getLsbD_setWidth, show 64 - 1 - (64 - len) = len - 1 by omega]
    simp [show ¬ 63 < 64 - len by omega, show len - 1 < len by omega]
  ext i hi
  rw [BitVec.getElem_sshiftRight, BitVec.getElem_signExtend, hmsb]
  by_cases hlt : i < len
  · rw [dif_pos (by omega), dif_pos hlt, BitVec.getElem_shiftLeft, BitVec.getElem_setWidth,
      BitVec.getLsbD_eq_getElem hi]
    simp [show ¬ 64 - len + i < 64 - len by omega]
  · rw [dif_neg (by omega), dif_neg hlt]

theorem signExtend_eq (v : Word) (h : 0 < len) :
    signExtend v len = .ok (BitField.signExtend v len) := by
  unfold signExtend BitField.signExtend
  split
  · rename_i hlen
    rw [Nat.min_eq_right hlen]
    simp
  · rename_i hlen
    have hlen : len < 64 := Nat.lt_of_not_le hlen
    rw [difference_of_le (Nat.le_of_lt hlen), Nat.min_eq_left (Nat.le_of_lt hlen)]
    rw [ok_bind, shiftLeft_of_lt (by omega), ok_bind, signedShiftRight_of_lt (by omega),
      sshiftRight_shiftLeft v h (Nat.le_of_lt hlen)]

/-- Shifting a field down and masking it takes it out of its word. -/
theorem ushiftRight_and_lowMask (v : Word) (pos : Nat) (h : len ≤ 64) :
    (v >>> pos) &&& BitField.lowMask len = (v.extractLsb' pos len).setWidth 64 := by
  apply BitVec.eq_of_toNat_eq
  have hlt : (v.toNat >>> pos) % 2 ^ len < 2 ^ 64 :=
    Nat.lt_of_lt_of_le (Nat.mod_lt _ (Nat.two_pow_pos len)) (Nat.pow_le_pow_right (by decide) h)
  rw [BitVec.toNat_and, toNat_lowMask h, Nat.and_two_pow_sub_one_eq_mod,
    BitVec.toNat_ushiftRight, BitVec.toNat_setWidth, BitVec.extractLsb'_toNat,
    Nat.mod_eq_of_lt hlt]

/-- A field that is valid is extracted without a failure. -/
theorem extract_eq (v : Word) (signed : Bool) (h : BitField.isValid pos len = true) :
    extract v pos len signed = .ok (BitField.extract v pos len signed) := by
  simp only [BitField.isValid, Bool.and_eq_true, decide_eq_true_eq] at h
  have hlen : len ≤ 64 := by omega
  have hmin : min len 64 = len := Nat.min_eq_left hlen
  have hback (hlt : len < 64) : BitField.signExtend ((v.extractLsb' pos len).setWidth 64) len =
      (v.extractLsb' pos len).signExtend 64 := by
    rw [BitField.signExtend, hmin, BitVec.setWidth_setWidth_of_le _ (Nat.le_of_lt hlt),
      BitVec.setWidth_eq]
  simp only [extract, shiftRight_of_lt (show pos < 64 by omega), lowMask_eq, ok_bind,
    ushiftRight_and_lowMask v pos hlen, signExtend_eq _ h.1]
  rw [BitField.extract, hmin]
  rcases signed with _ | _
  · rfl
  · by_cases hlt : len < 64
    · simp only [hlt, decide_true, Bool.and_self, if_true, hback]
    · obtain rfl : len = 64 := by omega
      simp

theorem deposit_eq (target v : Word) (h : pos < 64) :
    deposit target v pos len = .ok (BitField.deposit target v pos len) := by
  rw [deposit, lowMask_eq, ok_bind, shiftLeft_of_lt h, ok_bind, shiftLeft_of_lt h, ok_bind]
  rfl

theorem doubleShiftRight_eq (high low : Word) (amount : Nat) :
    doubleShiftRight high low amount = .ok (BitField.doubleShiftRight high low amount) := by
  have hwide : high.setWidth 128 <<< 64 ||| low.setWidth 128 = high ++ low := by
    ext i hi
    rw [BitVec.getElem_or, BitVec.getElem_shiftLeft, BitVec.getElem_append]
    by_cases hlt : i < 64 <;> simp only [hlt, decide_true, decide_false, dite_true, dite_false,
      Bool.not_true, Bool.not_false, Bool.false_and, Bool.true_and, Bool.false_or,
      BitVec.getElem_setWidth]
    · exact BitVec.getLsbD_eq_getElem hlt
    · rw [BitVec.getLsbD_eq_getElem (by omega), BitVec.getLsbD_of_ge low i (by omega),
        Bool.or_false]
  have hamount : amount &&& 63 = amount % 64 := Nat.and_two_pow_sub_one_eq_mod amount 6
  simp only [doubleShiftRight, shiftLeft_of_lt (show 64 < 128 by decide), ok_bind, hwide, hamount,
    shiftRight_of_lt (show amount % 64 < 128 by omega)]
  refine congrArg Except.ok (BitVec.eq_of_toNat_eq ?_)
  simp [BitField.doubleShiftRight, BitVec.extractLsb'_toNat]

/-- One bit of a word. -/
def bit (v : Word) (pos : Nat) : Except Failure Word :=
  return (← signedShiftRight v pos) &&& 1

/-- A word shifted to the left or to the right, and the sum with another. -/
def shiftAdd (b : Word) (amount : Nat) (left : Bool) (a : Word) (checked : Bool) :
    Except Failure (Option Word) := do
  let shifted ← if left then shiftLeft b amount else signedShiftRight b amount
  return Word.add shifted a checked

theorem bit_eq (v : Word) (h : pos < 64) : bit v pos = .ok (if v.getLsbD pos then 1 else 0) := by
  rw [bit, signedShiftRight_of_lt h, ok_bind]
  refine congrArg Except.ok (BitVec.eq_of_getLsbD_eq fun i hi => ?_)
  rw [BitVec.getLsbD_and, BitVec.getLsbD_sshiftRight]
  by_cases h₀ : i = 0
  · subst h₀
    rcases hv : v.getLsbD pos <;> simp [h]
  · rcases v.getLsbD pos <;> simp [BitVec.getLsbD_one, h₀]

/-- A checked shift-and-add meets no failure. -/
theorem shiftAdd_eq (b : Word) (left : Bool) (a : Word) (checked : Bool) {amount : Nat}
    (h : amount < 64) :
    shiftAdd b amount left a checked = .ok (Word.shiftAdd b left amount a checked) := by
  rw [shiftAdd, shiftLeft_of_lt h, signedShiftRight_of_lt h, Word.shiftAdd, Word.shift,
    Nat.mod_eq_of_lt h]
  rcases left with _ | _ <;> rfl

/-! ## Widths -/

def mask (w : Width) : Except Failure Word :=
  match w with
  | .double => .ok (BitVec.allOnes 64)
  | _ => do
    let bit ← shiftLeft (1 : Word) (← product 64 w.bytes 8)
    return BitVec.ofNat 64 (← difference bit.toNat 1)

def extend (w : Width) (v : Word) (signed : Bool) : Except Failure Word := do
  let v := v &&& (← mask w)
  if signed then
    let shift ← difference 64 (← product 64 w.bytes 8)
    signedShiftRight (← shiftLeft v shift) shift
  else return v

def isAligned (w : Width) (a : Word) : Except Failure Bool :=
  return a.toNat &&& (← difference w.bytes 1) == 0

theorem mask_eq (w : Width) : mask w = .ok w.mask := by cases w <;> rfl

theorem and_mask (w : Width) (v : Word) : v &&& w.mask = w.truncate v := by
  have hmask : w.mask.toNat = 2 ^ w.bits - 1 := by cases w <;> rfl
  have hbits : w.bits ≤ 64 := by cases w <;> decide
  apply BitVec.eq_of_toNat_eq
  rw [BitVec.toNat_and, hmask, Nat.and_two_pow_sub_one_eq_mod, Width.truncate,
    BitVec.toNat_setWidth, BitVec.toNat_setWidth]
  exact (Nat.mod_eq_of_lt (Nat.lt_of_lt_of_le (Nat.mod_lt _ (Nat.two_pow_pos _))
    (Nat.pow_le_pow_right (by decide) hbits))).symm

/-- A value is extended without an oversized shift. -/
theorem extend_eq (w : Width) (v : Word) (signed : Bool) :
    extend w v signed = .ok (w.extend v signed) := by
  have hbits : w.bits ≤ 64 := by cases w <;> decide
  have hpos : 0 < w.bits := by cases w <;> decide
  have hproduct : product 64 w.bytes 8 = .ok w.bits := by cases w <;> rfl
  have hback : (w.truncate v).setWidth w.bits = v.setWidth w.bits := by
    rw [Width.truncate, BitVec.setWidth_setWidth_of_le _ hbits, BitVec.setWidth_eq]
  have hshift : 64 - w.bits < 64 := by omega
  simp only [extend, mask_eq, ok_bind, and_mask, hproduct, difference_of_le hbits,
    shiftLeft_of_lt hshift, signedShiftRight_of_lt hshift, sshiftRight_shiftLeft _ hpos hbits,
    hback, Width.extend]
  rcases signed with _ | _ <;> rfl

theorem isAligned_eq (w : Width) (a : Word) : isAligned w a = .ok (w.isAligned a) := by
  have hlow (k : Nat) : a.toNat &&& (2 ^ k - 1) = a.toNat % 2 ^ k :=
    Nat.and_two_pow_sub_one_eq_mod a.toNat k
  cases w
  · exact congrArg (fun x => Except.ok (x == 0)) (hlow 0)
  · exact congrArg (fun x => Except.ok (x == 0)) (hlow 1)
  · exact congrArg (fun x => Except.ok (x == 0)) (hlow 2)
  · exact congrArg (fun x => Except.ok (x == 0)) (hlow 3)

end Checked

end Processor64
