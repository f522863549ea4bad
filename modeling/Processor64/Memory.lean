import Processor64.Memory.IoWindow
import Processor64.Config

/-!
# Memory

Physical memory from address 0 and the I/O window beside it. An address inside the window goes to
the window, any other address to physical memory.
-/

namespace Processor64

/-- Physical memory, and the window behind which devices lie. -/
structure Memory (δ : Type) where
  physical : ByteStore
  io : IoWindow δ

namespace Memory

variable {δ : Type}

/-- The memory of a configuration, with its console if there is to be one. -/
def create (c : Config) : Memory δ where
  physical := .zeros c.memory.physicalSize
  io :=
    let io := IoWindow.create c.memory.ioSize
    if c.console.enabled then io.attach (.console (.create c.console.base)) else io

/-- A read of physical memory, which changes nothing. -/
def readPhysical (m : Memory δ) (a : Word) (w : Width) (signed : Bool) :
    Except Trap (Reply (Memory δ) Word) :=
  (m.physical.read a w signed).map fun v => ⟨v, m, []⟩

/-- A write of physical memory. -/
def writePhysical (m : Memory δ) (a : Word) (w : Width) (v : Word) :
    Except Trap (Reply (Memory δ) Unit) :=
  (m.physical.write a w v).map fun p => ⟨(), { m with physical := p }, []⟩

/-- Physical memory with an image in it. -/
def load (m : Memory δ) (a : Word) (image : List UInt8) : Except Trap (Memory δ) :=
  (m.physical.load a image).map fun p => { m with physical := p }

variable [Device δ]

/-- A read through the I/O window. -/
def readIo (m : Memory δ) (a : Word) (w : Width) (signed : Bool) :
    Except Trap (Reply (Memory δ) Word) :=
  (m.io.read a w signed).map (·.within fun io => { m with io := io })

/-- A write through the I/O window. -/
def writeIo (m : Memory δ) (a : Word) (w : Width) (v : Word) :
    Except Trap (Reply (Memory δ) Unit) :=
  (m.io.write a w v).map (·.within fun io => { m with io := io })

/-- A read, routed by its address alone. -/
def read (m : Memory δ) (a : Word) (w : Width) (signed : Bool) :
    Except Trap (Reply (Memory δ) Word) :=
  if a.inIoWindow then m.readIo a w signed else m.readPhysical a w signed

/-- What a read would answer, found without one. -/
def preview (m : Memory δ) (a : Word) (w : Width) (signed : Bool) :
    Except Trap (Reply (Memory δ) Word) :=
  if a.inIoWindow then (m.io.preview a w signed).map (·.within fun io => { m with io := io })
  else m.readPhysical a w signed

/-- A write, routed as a read is. -/
def write (m : Memory δ) (a : Word) (w : Width) (v : Word) :
    Except Trap (Reply (Memory δ) Unit) :=
  if a.inIoWindow then m.writeIo a w v else m.writePhysical a w v

end Memory

end Processor64
