/-!
# Words, pages and the I/O window

A word is 64 bits and serves as value and as address. An address is the number of a 16 KiB page
followed by an offset in it, and is determined by the two (`withOffset_page_offset`). The addresses
from `ioStart` to `ioLimit` form the I/O window; all others name physical memory.
-/

namespace Processor64

/-- The 64-bit words the processor computes with. -/
abbrev Word := BitVec 64

/-- The number of a 16 KiB page. -/
abbrev Page := BitVec 50

/-- A place within a page. -/
abbrev PageOffset := BitVec 14

/-- The size of a page in bytes. -/
def pageSize : Nat := 0x4000

/-- First address of the I/O window. -/
def ioStart : Nat := 0xF0000000

/-- Last address of the I/O window. -/
def ioLimit : Nat := 0xFFFFFFFF

/-- Bytes in the I/O window. -/
def ioWindowSize : Nat := ioLimit - ioStart + 1

namespace Word

/-- The page an address lies in. -/
def page (a : Word) : Page := a.extractLsb' 14 50

/-- The place of an address within its page. -/
def offset (a : Word) : PageOffset := a.extractLsb' 0 14

/-- Whether an address lies in the I/O window. -/
def inIoWindow (a : Word) : Bool :=
  ioStart ≤ a.toNat && a.toNat ≤ ioLimit

end Word

namespace Page

/-- The address of a place in a page. -/
def withOffset (p : Page) (o : PageOffset) : Word := p ++ o

/-- The first address of a page. -/
def address (p : Page) : Word := p.withOffset 0

end Page

/-- Two runs of bits one above the other do not overlap. -/
theorem toNat_append_eq_add {m n : Nat} (a : BitVec m) (b : BitVec n) :
    (a ++ b).toNat = (a.toNat <<< n) + b.toNat := by
  rw [BitVec.toNat_append, Nat.shiftLeft_add_eq_or_of_lt b.isLt]

theorem withOffset_page_offset (a : Word) : (Word.page a).withOffset (Word.offset a) = a :=
  @BitVec.extractLsb'_append_extractLsb' 50 14 a

end Processor64
