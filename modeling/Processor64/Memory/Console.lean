import Processor64.Memory.Device

/-!
# The console

A terminal of eight bytes. A read of offset 0 takes a byte of input, and is all ones when there is
none; a write there appends its low byte to the output. Offset 4 tells whether input is waiting
(bit 0) and is always ready for output (bit 1). Other offsets read as zero and ignore writes.
-/

namespace Processor64

/-- A terminal of two registers: what is typed waits, what is printed is kept. -/
structure Console where
  base : Word
  input : List UInt8
  output : Array UInt8
  deriving DecidableEq

namespace Console

/-- A console on which nothing was typed or printed. -/
def create (base : Word) : Console := ⟨base, [], #[]⟩

/-- Where characters are read and written. -/
def dataOffset : Word := 0

/-- Where a program asks whether a character waits. -/
def statusOffset : Word := 4

def size : Nat := 8

/-- What is typed waits behind what was typed before. -/
def pushInput (c : Console) (bytes : List UInt8) : Console :=
  { c with input := c.input ++ bytes }

/-- The output so far, and the console without it. -/
def takeOutput (c : Console) : List UInt8 × Console :=
  (c.output.toList, { c with output := #[] })

/-- What stands at `offset`, with the input left as it is. -/
def value (c : Console) (offset : Word) : Word :=
  if offset = dataOffset then
    match c.input with
    | [] => BitVec.allOnes 64
    | b :: _ => BitVec.ofNat 64 b.toNat
  else if offset = statusOffset then if c.input.isEmpty then 2 else 3
  else 0

/-- What a read would answer, with the input left as it is. -/
def peek (c : Console) (offset : Word) (w : Width) : Word :=
  w.truncate (c.value offset)

/-- The register at `offset`. A read of the data takes the first byte of input. -/
def readRegister (c : Console) (offset : Word) : Word × Console :=
  if offset = dataOffset then
    match c.input with
    | [] => (BitVec.allOnes 64, c)
    | b :: bs => (BitVec.ofNat 64 b.toNat, { c with input := bs })
  else (c.value offset, c)

/-- A read of a register, cut down to the width asked for. -/
def read (c : Console) (offset : Word) (w : Width) : Word × Console :=
  let (v, c) := c.readRegister offset
  (w.truncate v, c)

/-- A write prints to the data register and is ignored elsewhere. -/
def write (c : Console) (offset : Word) (_ : Width) (v : Word) : Console :=
  if offset = dataOffset then { c with output := c.output.push (UInt8.ofNat v.toNat) } else c

instance : Device Console where
  name _ := "CONSOLE"
  base := Console.base
  size _ := BitVec.ofNat 64 Console.size
  read := read
  write := write
  peek := peek

end Console

namespace Console

/-- A read answers with what stood at the offset before it. -/
theorem readRegister_fst (c : Console) (offset : Word) :
    (c.readRegister offset).1 = c.value offset := by
  unfold readRegister
  split
  · next h => cases hi : c.input <;> simp [value, h, hi]
  · rfl

/-- A read of the data leaves all input but the first byte. -/
theorem readRegister_snd (c : Console) (offset : Word) :
    (c.readRegister offset).2 = if offset = dataOffset then { c with input := c.input.tail }
      else c := by
  unfold readRegister
  split
  · cases c with
    | mk base input output => cases input <;> rfl
  · rfl

theorem read_eq (c : Console) (offset : Word) (w : Width) :
    c.read offset w = (c.peek offset w,
      if offset = dataOffset then { c with input := c.input.tail } else c) := by
  rw [read, ← readRegister_snd, peek, ← readRegister_fst]

/-- Only a read of the data takes anything. -/
theorem read_of_ne {offset : Word} (h : offset ≠ dataOffset) (c : Console) (w : Width) :
    c.read offset w = (w.truncate (c.value offset), c) := by
  simp only [read, readRegister, if_neg h]

/-- A peek answers as a read does. -/
theorem honest : Device.Honest Console := by
  intro c offset w
  show w.truncate (c.peek offset w) = (c.read offset w).1
  rw [read_eq, peek, Width.truncate_truncate]

end Console

end Processor64
