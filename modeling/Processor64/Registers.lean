import Processor64.ControlRegister
import Processor64.StatusWord
import Processor64.Trap
import Processor64.Text.Column

/-!
# Registers

The sixteen general registers, of which register 0 reads as zero and ignores writes, the control
registers, the status word, the instruction last fetched, and the outstanding reservation.
A reservation is broken by a store that meets its bytes (`Registers.noteStore`).
-/

namespace Processor64

/-- The number of a general register. -/
abbrev Register := BitVec 4

/-- What a reserving load leaves behind: the bytes it read and their value. -/
structure Reservation where
  address : Word
  length : Nat
  value : Word
  deriving DecidableEq, Repr

/-- Whether a store of `n` bytes at `a` meets the reserved bytes; both ends wrap. -/
def Reservation.meets (r : Reservation) (a : Word) (n : Nat) : Bool :=
  a.ult (r.address + BitVec.ofNat 64 r.length) && r.address.ult (a + BitVec.ofNat 64 n)

/-- The registers of a processor, with the reservation it holds. -/
structure Registers where
  generals : Vector Word 16
  controls : Vector Word 16
  status : StatusWord
  instruction : BitVec 32
  reservation : Option Reservation
  deriving DecidableEq

namespace Registers

/-- All registers at zero, and nothing reserved. -/
def cleared : Registers where
  generals := Vector.replicate 16 0
  controls := Vector.replicate 16 0
  status := .zero
  instruction := 0
  reservation := none

instance : Inhabited Registers := ⟨cleared⟩

/-- What a general register reads as; the first reads as zero. -/
def general (s : Registers) (r : Register) : Word :=
  if r = 0 then 0 else s.generals[r.toFin]

/-- A write to a general register; a write to the first is lost. -/
def setGeneral (s : Registers) (r : Register) (v : Word) : Registers :=
  if r = 0 then s else { s with generals := s.generals.set r.toNat v r.isLt }

/-- A number from 16 on is an illegal instruction about that number. -/
def generalAt (s : Registers) (n : Word) : Except Trap Word :=
  if n.toNat < 16 then .ok (s.general (n.setWidth 4))
  else .error ⟨.illegalInstruction, n.setWidth 32, 0, 0⟩

def setGeneralAt (s : Registers) (n v : Word) : Except Trap Registers :=
  if n.toNat < 16 then .ok (s.setGeneral (n.setWidth 4) v)
  else .error ⟨.illegalInstruction, n.setWidth 32, 0, 0⟩

/-- The control register of a number, zero at the reserved numbers. -/
def controlCell (s : Registers) (n : BitVec 4) : Word :=
  s.controls[n.toFin]

/-- A write to a control register by its cell, with no regard to its meaning. -/
def setControlCell (s : Registers) (n : BitVec 4) (v : Word) : Registers :=
  { s with controls := s.controls.set n.toNat v n.isLt }

def control (s : Registers) (c : ControlRegister) : Word :=
  s.controlCell c.number

def setControl (s : Registers) (c : ControlRegister) (v : Word) : Registers :=
  s.setControlCell c.number v

/-- A reserved number is an illegal instruction about that number. -/
def controlAt (s : Registers) (n : BitVec 32) : Except Trap Word :=
  match ControlRegister.ofNumber? n.toNat with
  | some c => .ok (s.control c)
  | none => .error ⟨.illegalInstruction, n, 0, 0⟩

/-- A write to a control register by its number, refused if the number has no meaning. -/
def setControlAt (s : Registers) (n : BitVec 32) (v : Word) : Except Trap Registers :=
  match ControlRegister.ofNumber? n.toNat with
  | some c => .ok (s.setControl c v)
  | none => .error ⟨.illegalInstruction, n, 0, 0⟩

/-- A reservation takes the place of the one before. -/
def reserve (s : Registers) (r : Reservation) : Registers :=
  { s with reservation := some r }

/-- Nothing is reserved any more. -/
def dropReservation (s : Registers) : Registers :=
  { s with reservation := none }

/-- Drops the reservation if a store of `n` bytes at `a` meets it. -/
def noteStore (s : Registers) (a : Word) (n : Nat) : Registers :=
  match s.reservation with
  | some r => if r.meets a n then s.dropReservation else s
  | none => s

/-- All eight bytes of a word in hexadecimal, the highest first. -/
def wordText (v : Word) : String :=
  "0x" ++ String.join ((List.range 8).reverse.map fun i =>
    Numeral.octet (UInt8.ofNat (v >>> (8 * i)).toNat))

/-- The numbered general registers from `first`, on one line. -/
def dumpLine (s : Registers) (first : Nat) : String :=
  let cell (i : Nat) := "R" ++ Column.left 2 (Numeral.decimal (first + i)) ++ "=" ++
    wordText (s.general (BitVec.ofNat 4 (first + i)))
  " ".intercalate ((List.range 4).map cell) ++ "\n"

/-- The status word and instruction, the general registers by fours, then the control registers. -/
def dump (s : Registers) : String :=
  let controlLine (c : ControlRegister) :=
    Column.left 10 c.name ++ "=" ++ wordText (s.control c) ++ "\n"
  "PSW " ++ s.status.text ++ "  IR=" ++ Numeral.hexFilled 8 s.instruction.toNat ++ "\n" ++
    String.join ([0, 4, 8, 12].map s.dumpLine) ++ String.join (ControlRegister.all.map controlLine)

end Registers

end Processor64
