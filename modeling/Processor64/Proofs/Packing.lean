import Processor64.Proofs.Checked.Decoding

/-!
# Packed instruction words

Six fields make up an instruction word (`InstructionWord.toNat_pack`), and the word that is decoded
to them is the one that they make up and no other (`packed_iff`). The other fields lie across these
and are given by them (`Fields.Overlaps`); a signed field is the one number of its length that
agrees with the bits of the word (`signedResidue_iff`).
-/

namespace Processor64

/-- The number of `k` signed bits that is `n` modulo 2^k. -/
structure SignedResidue (k n : Nat) (x : Int) : Prop where
  lower : -2 ^ (k - 1) ≤ x
  upper : x < 2 ^ (k - 1)
  residue : x % 2 ^ k = (n % 2 ^ k : Nat)

theorem toInt_emod_two_pow {k : Nat} (v : BitVec k) : v.toInt % 2 ^ k = v.toNat := by
  have hcast : (2 ^ k : Int) = ((2 ^ k : Nat) : Int) := by norm_cast
  rw [hcast, BitVec.toInt_eq_toNat_bmod, Int.bmod_emod, ← Int.natCast_emod,
    Nat.mod_eq_of_lt v.isLt]

theorem signedResidue_iff {k n : Nat} (hk : 0 < k) (v : BitVec k) (hn : n % 2 ^ k = v.toNat)
    (x : Int) : SignedResidue k n x ↔ x = v.toInt := by
  constructor
  · rintro ⟨hlower, hupper, hresidue⟩
    have hword : BitVec.ofInt k x = v := by
      apply BitVec.eq_of_toNat_eq
      rw [BitVec.toNat_ofInt, ← hn]
      have hcast : ((2 ^ k : Nat) : Int) = 2 ^ k := by norm_cast
      rw [hcast, hresidue]
      rfl
    rw [← hword, BitVec.toInt_ofInt_eq_self hk hlower hupper]
  · rintro rfl
    exact ⟨BitVec.le_toInt v, BitVec.toInt_lt, by rw [toInt_emod_two_pow, hn]⟩

/-- The fields have these values, of which `low` is what the constant of fifteen bits is modulo
2^15. -/
structure Fields.Packed (d : Fields) (group : BitVec 2) (family r : BitVec 4)
    (qualifier : BitVec 3) (b : BitVec 4) (low : BitVec 15) : Prop where
  group : d.group = group.toNat
  family : d.family = family.toNat
  r : d.r = r.toNat
  qualifier : d.qualifier = qualifier.toNat
  b : d.b = b.toNat
  low : d.imm15.toInt % 2 ^ 15 = low.toNat

/-- The fields that lie across others, given these and the lowest fifteen bits of the word. -/
structure Fields.Overlaps (d : Fields) (low : Nat) : Prop where
  widthCode : d.widthCode = low / 2 ^ 13
  a : d.a = low / 2 ^ 9 % 2 ^ 4
  bitPosition : d.bitPosition = 4 * d.b + d.widthCode
  imm13 : ∀ x, SignedResidue 13 low x ↔ x = d.imm13.toInt
  imm15 : ∀ x, SignedResidue 15 low x ↔ x = d.imm15.toInt
  imm19 : ∀ x, SignedResidue 19 (d.b * 2 ^ 15 + low) x ↔ x = d.imm19.toInt
  imm20 : d.imm20.toNat = d.qualifier % 2 * 2 ^ 19 + d.b * 2 ^ 15 + low

namespace InstructionWord

variable {group : BitVec 2} {family r : BitVec 4} {qualifier : BitVec 3} {b : BitVec 4}
  {low : BitVec 15}

theorem toNat_field (w : InstructionWord) (pos len : Nat) :
    (w.extractLsb' pos len).toNat = w.toNat / 2 ^ pos % 2 ^ len := by
  rw [BitVec.extractLsb'_toNat, Nat.shiftRight_eq_div_pow]

/-- A packed word as a number, field by field. -/
theorem toNat_pack (group : BitVec 2) (family r : BitVec 4) (qualifier : BitVec 3) (b : BitVec 4)
    (low : BitVec 15) : (pack group family r qualifier b low).toNat =
      group.toNat * 2 ^ 30 + family.toNat * 2 ^ 26 + r.toNat * 2 ^ 22 + qualifier.toNat * 2 ^ 19 +
        b.toNat * 2 ^ 15 + low.toNat := by
  simp only [pack, toNat_append_eq_add, Nat.shiftLeft_eq]
  omega

theorem imm15_emod (w : InstructionWord) : w.fields.imm15.toInt % 2 ^ 15 = w.low.toNat := by
  have hsame : w.fields.imm15.toInt = w.imm15.toInt := BitVec.toInt_signExtend_of_le (by decide)
  rw [hsame]
  exact toInt_emod_two_pow w.imm15

/-- A word is packed from its own fields. -/
theorem pack_self (w : InstructionWord) :
    pack w.group w.family w.r w.qualifier w.b w.low = w := by
  have hw := w.isLt
  have hgroup : w.group.toNat = w.toNat / 2 ^ 30 % 2 ^ 2 := toNat_field w 30 2
  have hfamily : w.family.toNat = w.toNat / 2 ^ 26 % 2 ^ 4 := toNat_field w 26 4
  have hr : w.r.toNat = w.toNat / 2 ^ 22 % 2 ^ 4 := toNat_field w 22 4
  have hqualifier : w.qualifier.toNat = w.toNat / 2 ^ 19 % 2 ^ 3 := toNat_field w 19 3
  have hb : w.b.toNat = w.toNat / 2 ^ 15 % 2 ^ 4 := toNat_field w 15 4
  have hlow : w.low.toNat = w.toNat / 2 ^ 0 % 2 ^ 15 := toNat_field w 0 15
  apply BitVec.eq_of_toNat_eq
  rw [toNat_pack]
  omega

theorem packed_self (w : InstructionWord) :
    w.fields.Packed w.group w.family w.r w.qualifier w.b w.low where
  group := rfl
  family := rfl
  r := rfl
  qualifier := rfl
  b := rfl
  low := imm15_emod w

theorem packed_pack (group : BitVec 2) (family r : BitVec 4) (qualifier : BitVec 3)
    (b : BitVec 4) (low : BitVec 15) :
    (pack group family r qualifier b low).fields.Packed group family r qualifier b low := by
  have hfamily := family.isLt
  have hr := r.isLt
  have hqualifier := qualifier.isLt
  have hb := b.isLt
  have hlow := low.isLt
  have hfield (pos len : Nat) : ((pack group family r qualifier b low).extractLsb' pos len).toNat =
      (group.toNat * 2 ^ 30 + family.toNat * 2 ^ 26 + r.toNat * 2 ^ 22 +
        qualifier.toNat * 2 ^ 19 + b.toNat * 2 ^ 15 + low.toNat) / 2 ^ pos % 2 ^ len := by
    rw [toNat_field, toNat_pack]
  exact {
    group := (hfield 30 2).trans (by omega)
    family := (hfield 26 4).trans (by omega)
    r := (hfield 22 4).trans (by omega)
    qualifier := (hfield 19 3).trans (by omega)
    b := (hfield 15 4).trans (by omega)
    low := (imm15_emod _).trans (congrArg Nat.cast ((hfield 0 15).trans (by omega))) }

/-- Fields are those of one word alone: the one they pack to. -/
theorem packed_iff (w : InstructionWord) :
    w.fields.Packed group family r qualifier b low ↔
      pack group family r qualifier b low = w := by
  constructor
  · rintro ⟨hgroup, hfamily, hr, hqualifier, hb, hlow⟩
    obtain rfl : w.group = group := BitVec.eq_of_toNat_eq hgroup
    obtain rfl : w.family = family := BitVec.eq_of_toNat_eq hfamily
    obtain rfl : w.r = r := BitVec.eq_of_toNat_eq hr
    obtain rfl : w.qualifier = qualifier := BitVec.eq_of_toNat_eq hqualifier
    obtain rfl : w.b = b := BitVec.eq_of_toNat_eq hb
    obtain rfl : w.low = low :=
      BitVec.eq_of_toNat_eq (Int.ofNat_inj.mp ((imm15_emod w).symm.trans hlow))
    exact pack_self w
  · rintro rfl
    exact packed_pack group family r qualifier b low

/-- The overlapping fields of a word are read from its lowest bits. -/
theorem overlaps (w : InstructionWord) : w.fields.Overlaps (w.toNat % 2 ^ 15) := by
  have hqualifier : w.fields.qualifier = w.toNat / 2 ^ 19 % 2 ^ 3 := toNat_field w 19 3
  have hb : w.fields.b = w.toNat / 2 ^ 15 % 2 ^ 4 := toNat_field w 15 4
  have hsigned {k n : Nat} (v : BitVec k) (hk : 0 < k) (hle : k ≤ 64)
      (hn : n % 2 ^ k = v.toNat) (x : Int) : SignedResidue k n x ↔ x = (v.signExtend 64).toInt := by
    rw [BitVec.toInt_signExtend_of_le hle]
    exact signedResidue_iff hk v hn x
  constructor
  case widthCode =>
    have h : w.fields.widthCode = w.toNat / 2 ^ 13 % 2 ^ 2 := toNat_field w 13 2
    omega
  case a =>
    have h : w.fields.a = w.toNat / 2 ^ 9 % 2 ^ 4 := toNat_field w 9 4
    omega
  case bitPosition =>
    have h : w.fields.widthCode = w.toNat / 2 ^ 13 % 2 ^ 2 := toNat_field w 13 2
    have h' : w.fields.bitPosition = w.toNat / 2 ^ 13 % 2 ^ 6 := toNat_field w 13 6
    omega
  case imm13 =>
    have h : w.imm13.toNat = w.toNat / 2 ^ 0 % 2 ^ 13 := toNat_field w 0 13
    exact hsigned w.imm13 (by decide) (by decide) (by omega)
  case imm15 =>
    have h : w.imm15.toNat = w.toNat / 2 ^ 0 % 2 ^ 15 := toNat_field w 0 15
    exact hsigned w.imm15 (by decide) (by decide) (by omega)
  case imm19 =>
    have h : w.imm19.toNat = w.toNat / 2 ^ 0 % 2 ^ 19 := toNat_field w 0 19
    exact hsigned w.imm19 (by decide) (by decide) (by omega)
  case imm20 =>
    have h : w.imm20.toNat = w.toNat / 2 ^ 0 % 2 ^ 20 := toNat_field w 0 20
    have h' : w.fields.imm20.toNat = w.imm20.toNat := BitVec.toNat_setWidth_of_le (by decide)
    omega

/-- Decoding takes every word to the fields that it is packed from, which are its own, and gives
the fields that lie across these. -/
theorem decoding_bijective :
    (∀ group family r qualifier b low, (pack group family r qualifier b low).toNat =
      group.toNat * 2 ^ 30 + family.toNat * 2 ^ 26 + r.toNat * 2 ^ 22 + qualifier.toNat * 2 ^ 19 +
        b.toNat * 2 ^ 15 + low.toNat) ∧
    ∀ w : InstructionWord, ∃ d, Checked.fields w = .ok d ∧
      (∀ group family r qualifier b low, d.Packed group family r qualifier b low ↔
        pack group family r qualifier b low = w) ∧
      (∃ group family r qualifier b low, d.Packed group family r qualifier b low) ∧
      d.Overlaps (w.toNat % 2 ^ 15) :=
  ⟨toNat_pack, fun w => ⟨w.fields, Checked.fields_eq w, fun _ _ _ _ _ _ => packed_iff w,
    ⟨_, _, _, _, _, _, packed_self w⟩, overlaps w⟩⟩

end InstructionWord

end Processor64
