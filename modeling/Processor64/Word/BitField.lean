import Processor64.Word

/-!
# Bit fields

A field of a word is given by its lowest bit `pos` and its length `len`, and is valid when it is
not empty and ends inside the word. `extract` brings a field down to bit 0, `deposit` replaces it,
and `doubleShiftRight` reads 64 bits out of a pair of words.
-/

namespace Processor64.BitField

def isValid (pos len : Nat) : Bool :=
  1 ≤ len && pos + len ≤ 64

/-- The low `len` bits of a word, all of them from 64 on. -/
def lowMask (len : Nat) : Word :=
  (BitVec.allOnes (min len 64)).setWidth 64

/-- The field, extended to a word with or without its sign. -/
def extract (v : Word) (pos len : Nat) (signed : Bool) : Word :=
  let field := v.extractLsb' pos (min len 64)
  if signed then field.signExtend 64 else field.setWidth 64

/-- `target` with the field at `pos` taken from the low `len` bits of `v`. -/
def deposit (target v : Word) (pos len : Nat) : Word :=
  let mask := lowMask len <<< pos
  (target &&& ~~~mask) ||| ((v <<< pos) &&& mask)

/-- The low word of the pair `high`, `low` shifted right by `amount` modulo 64. -/
def doubleShiftRight (high low : Word) (amount : Nat) : Word :=
  (high ++ low).extractLsb' (amount % 64) 64

/-- Copies bit `len - 1` of `v` into all bits above it. -/
def signExtend (v : Word) (len : Nat) : Word :=
  (v.setWidth (min len 64)).signExtend 64

end Processor64.BitField
