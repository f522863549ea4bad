import Processor64.Machine.Session

/-!
# Accesses of the machine

How a machine reaches memory: alignment is checked first, then the address is translated, then the
physical address is read or written. A store breaks the reservation that it meets. A load whose
instruction may still trap is previewed, and committed once nothing can fail.
-/

namespace Processor64.Exec

variable {δ : Type}

/-- The physical address of an access whose alignment, mapping and rights are in order. -/
def translate (a : Word) (w : Width) (k : AccessKind) : Exec δ Word := do
  unless w.isAligned a do throw (.misaligned a w)
  let m ← machine
  let (r, tlb) := m.tlb.translate a k m.accessContext
  mapMachine fun m => { m with tlb := tlb }
  ofExcept r

/-- The physical address of an address, without a judgement of rights. -/
def resolve (a : Word) : Exec δ Word := do
  let m ← machine
  let (r, tlb) := m.tlb.resolve a m.accessContext
  mapMachine fun m => { m with tlb := tlb }
  ofExcept r

/-- Takes over the memory that an access leaves, and what it reports. -/
def absorb {α : Type} (r : Except Trap (Reply (Memory δ) α)) : Exec δ α := do
  let r ← ofExcept r
  mapMachine fun m => { m with memory := r.after }
  emit r.events
  return r.value

variable [Device δ]

/-- A read at a physical address. -/
def readMemory (p : Word) (w : Width) (signed : Bool) : Exec δ Word := do
  absorb ((← machine).memory.read p w signed)

/-- What a read at a physical address would answer, with no effect on a device. -/
def previewMemory (p : Word) (w : Width) (signed : Bool) : Exec δ Word := do
  absorb ((← machine).memory.preview p w signed)

/-- A write at a physical address. -/
def writeMemory (p : Word) (w : Width) (v : Word) : Exec δ Unit := do
  absorb ((← machine).memory.write p w v)

/-- The physical address and value of a load. -/
def loadPlaced (a : Word) (w : Width) (signed : Bool) : Exec δ (Word × Word) := do
  let p ← translate a w .read
  let v ← readMemory p w signed
  count fun c => { c with loads := c.loads + 1 }
  return (p, v)

/-- A load at a virtual address. -/
def load (a : Word) (w : Width) (signed : Bool) : Exec δ Word :=
  return (← loadPlaced a w signed).2

/-- The physical address and value that a load would have. -/
def previewLoad (a : Word) (w : Width) (signed : Bool) : Exec δ (Word × Word) := do
  let p ← translate a w .read
  let v ← previewMemory p w signed
  return (p, v)

/-- Performs a load at the physical address of its preview. -/
def commitLoad (p : Word) (w : Width) : Exec δ Unit := do
  discard (readMemory p w false)
  count fun c => { c with loads := c.loads + 1 }

/-- A write at a physical address that ends a reservation it overlaps. -/
def hostStore (p : Word) (w : Width) (v : Word) : Exec δ Unit := do
  writeMemory p w v
  mapRegisters (·.noteStore p w.bytes)

/-- A store at a physical address, counted as one of the program's. -/
def storePlaced (p : Word) (w : Width) (v : Word) : Exec δ Unit := do
  hostStore p w v
  count fun c => { c with stores := c.stores + 1 }

/-- A store at a virtual address. -/
def store (a : Word) (w : Width) (v : Word) : Exec δ Unit := do
  let p ← translate a w .write
  storePlaced p w v

/-- The word of the instruction at a virtual address. -/
def fetch (a : Word) : Exec δ (BitVec 32) := do
  let p ← translate a .word .execute
  let v ← readMemory p .word false
  return v.extractLsb' 0 32

end Processor64.Exec
