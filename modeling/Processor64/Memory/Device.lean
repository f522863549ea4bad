import Processor64.Event

/-!
# Devices

A device has a range of addresses in the I/O window and answers reads, writes and peeks at offsets
from the start of its range. A peek tells what a read would answer and changes nothing.
-/

namespace Processor64

/-- What the I/O window asks of a device; a peek foretells a read and changes nothing. -/
class Device (δ : Type) where
  name : δ → String
  base : δ → Word
  size : δ → Word
  read : δ → Word → Width → Word × δ
  write : δ → Word → Width → Word → δ
  peek : δ → Word → Width → Word

/-- There are no devices of the empty kind. -/
instance : Device Empty where
  name d := nomatch d
  base d := nomatch d
  size d := nomatch d
  read d := nomatch d
  write d := nomatch d
  peek d := nomatch d

/-- The sum of two addresses, or the last address if there is none. -/
def saturatingSum (a n : Nat) : Nat := min (a + n) (UInt64.size - 1)

/-- Whether `n` bytes at `a` lie in a range that starts at `base`. -/
def rangeCovers (base size a : Word) (n : Nat) : Bool :=
  base.ule a && saturatingSum a.toNat n ≤ saturatingSum base.toNat size.toNat

/-- Whether a device answers for a run of addresses. -/
def Device.covers {δ : Type} [Device δ] (d : δ) (a : Word) (n : Nat) : Bool :=
  rangeCovers (base d) (size d) a n

/-- A peek, cut to the width, agrees with a read in every state. -/
def Device.Honest (δ : Type) [Device δ] : Prop :=
  ∀ (d : δ) (offset : Word) (w : Width), w.truncate (peek d offset w) = (read d offset w).1

end Processor64
