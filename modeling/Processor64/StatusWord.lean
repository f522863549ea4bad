import Processor64.Word
import Processor64.Text.Numeral

/-!
# The program status word

The address of the next instruction in 52 bits below twelve status bits, of which the lowest three
are the modes: privileged, overflow checks, and translation. As a word the status stands above the
address (`toWord`), and every word is a status word (`ofWord`).
-/

namespace Processor64

/-- The status bits of a processor and the address of its next instruction. -/
structure StatusWord where
  status : BitVec 12
  address : BitVec 52
  deriving DecidableEq, Repr

namespace StatusWord

/-- The word a status word is saved as. -/
def toWord (p : StatusWord) : Word := p.status ++ p.address

/-- The status word a saved word stands for. -/
def ofWord (w : Word) : StatusWord := ⟨w.extractLsb' 52 12, w.extractLsb' 0 52⟩

/-- Privileged, without overflow checks and translation. -/
def atStart (a : Word) : StatusWord := ⟨1, a.extractLsb' 0 52⟩

def zero : StatusWord := ⟨0, 0⟩

/-- Whether privileged instructions may run. -/
def privileged (p : StatusWord) : Bool := p.status[0]

/-- Whether a signed overflow traps. -/
def checksOverflow (p : StatusWord) : Bool := p.status[1]

/-- Whether addresses go through the TLB. -/
def translates (p : StatusWord) : Bool := p.status[2]

/-- The address of the next instruction as a word. -/
def location (p : StatusWord) : Word := p.address.setWidth 64

/-- The same status bits at another address. -/
def withAddress (p : StatusWord) (a : BitVec 52) : StatusWord := { p with address := a }

/-- Sets or clears the modes in `mask`; the other status bits stay. -/
def withModes (p : StatusWord) (mask : BitVec 3) (on : Bool) : StatusWord :=
  let m := mask.setWidth 12
  { p with status := if on then p.status ||| m else p.status &&& ~~~m }

/-- Sets or clears any bits of the word. -/
def withBits (p : StatusWord) (mask : Word) (on : Bool) : StatusWord :=
  ofWord (if on then p.toWord ||| mask else p.toWord &&& ~~~mask)

/-- A status word in a dump: a letter for each bit that is set. -/
def text (p : StatusWord) : String :=
  "IA=" ++ Numeral.hex p.address.toNat ++ " [" ++ (if p.privileged then "X" else "-") ++
    (if p.checksOverflow then "V" else "-") ++ (if p.translates then "T" else "-") ++ "]"

/-- A status word with its fields by name. -/
def description (p : StatusWord) : String :=
  let flag (b : Bool) := if b then "true" else "false"
  "Psw \x7b address: " ++ Numeral.hex p.address.toNat ++ ", privileged: " ++ flag p.privileged ++
    ", overflow_checks: " ++ flag p.checksOverflow ++ ", translation: " ++ flag p.translates ++
    " \x7d"

end StatusWord

end Processor64
