import Processor64.Word

/-!
# Accesses

What an access does with memory (`AccessKind`) and how many bytes it covers (`Width`). A width
knows which addresses are aligned for it and how a value of that many bytes is widened to a word.
-/

namespace Processor64

/-- What an access is for: each kind has a right of its own. -/
inductive AccessKind where
  | read
  | write
  | execute
  deriving DecidableEq, Repr

namespace AccessKind

/-- The number a trap reports for the kind. -/
def code : AccessKind → Nat
  | read => 0
  | write => 1
  | execute => 2

/-- The kind a probe names by its number, if it names one. -/
def ofCode? : Nat → Option AccessKind
  | 0 => some read
  | 1 => some write
  | 2 => some execute
  | _ => none

end AccessKind

/-- The widths a memory access comes in. -/
inductive Width where
  | byte
  | half
  | word
  | double
  deriving DecidableEq, Repr

namespace Width

def bytes : Width → Nat
  | byte => 1
  | half => 2
  | word => 4
  | double => 8

def bits (w : Width) : Nat := 8 * w.bytes

/-- The width of a two-bit code is two to the power of the code. -/
def ofCode (c : BitVec 2) : Width :=
  if c = 0 then byte else if c = 1 then half else if c = 2 then word else double

/-- The width of this many bytes, if there is one. -/
def ofBytes? : Nat → Option Width
  | 1 => some byte
  | 2 => some half
  | 4 => some word
  | 8 => some double
  | _ => none

/-- Whether an address is a multiple of the width. -/
def isAligned (w : Width) (a : Word) : Bool :=
  a.toNat % w.bytes == 0

/-- The bytes of `v` that an access of this width carries. -/
def truncate (w : Width) (v : Word) : Word :=
  (v.setWidth w.bits).setWidth 64

@[simp]
theorem truncate_truncate (w : Width) (v : Word) : w.truncate (w.truncate v) = w.truncate v := by
  cases w <;> simp [truncate, bits, bytes]

/-- The word with exactly the bits of this width set. -/
def mask (w : Width) : Word :=
  w.truncate (BitVec.allOnes 64)

/-- Widens the low bytes of `v`, copying their top bit upwards when `signed`. -/
def extend (w : Width) (v : Word) (signed : Bool) : Word :=
  if signed then (v.setWidth w.bits).signExtend 64 else w.truncate v

end Width

end Processor64
