import Processor64.Memory.ByteStore
import Processor64.Memory.Console
import Processor64.Text.Quoted

/-!
# The I/O window

Devices over a plain store that starts at the first address of the window. An access goes to the
first device whose range covers all of it, else to the store if that covers it, and traps
otherwise. Each access to a device is one call, reported as one transaction.
-/

namespace Processor64

/-- A device in the window: a console, or one the host brings along. -/
inductive Peripheral (δ : Type) where
  | console (c : Console)
  | custom (d : δ)

namespace Peripheral

variable {δ : Type}

/-- The bytes that a write puts on a terminal. -/
def printed : Peripheral δ → Word → Word → List Event
  | console _, offset, v =>
    if offset = Console.dataOffset then [.consoleOutput (UInt8.ofNat v.toNat)] else []
  | custom _, _, _ => []

variable [Device δ]

/-- A read changes the device it reads. -/
def read : Peripheral δ → Word → Width → Word × Peripheral δ
  | console c, offset, w => let (v, c) := c.read offset w; (v, console c)
  | custom d, offset, w => let (v, d) := Device.read d offset w; (v, custom d)

/-- A write changes the device it writes. -/
def write : Peripheral δ → Word → Width → Word → Peripheral δ
  | console c, offset, w, v => console (c.write offset w v)
  | custom d, offset, w, v => custom (Device.write d offset w v)

instance : Device (Peripheral δ) where
  name
    | console c => Device.name c
    | custom d => Device.name d
  base
    | console c => Device.base c
    | custom d => Device.base d
  size
    | console c => Device.size c
    | custom d => Device.size d
  read := read
  write := write
  peek
    | console c => Device.peek c
    | custom d => Device.peek d

/-- What is reported when a device joins. -/
def attachment (p : Peripheral δ) : Event :=
  .deviceAttached (Device.name p) (Device.base p) (Device.size p)

end Peripheral

/-- The I/O window: devices in the order they are searched, and memory behind them. -/
structure IoWindow (δ : Type) where
  backing : ByteStore
  devices : List (Peripheral δ)

namespace IoWindow

variable {δ : Type}

/-- A window without devices. -/
def create (size : Nat) : IoWindow δ := ⟨.zeros size, []⟩

/-- A device that is attached later is searched later. -/
def attach (io : IoWindow δ) (p : Peripheral δ) : IoWindow δ :=
  { io with devices := io.devices ++ [p] }

/-- Where an access lands: in the device of a place in the list, or in the store. -/
inductive Target (io : IoWindow δ) where
  | device (place : Fin io.devices.length)
  | backing (start : Nat)

/-- Whether the memory behind the devices answers for a run of addresses. -/
def backs (io : IoWindow δ) (a : Word) (n : Nat) : Bool :=
  ioStart ≤ a.toNat && io.backing.covers (a.toNat - ioStart) n

/-- The value in the store, whatever devices lie over it. -/
def peekBacking (io : IoWindow δ) (a : Word) (w : Width) : Option Word :=
  if io.backs a w.bytes then some (io.backing.raw (a.toNat - ioStart) w) else none

/-- The first console in the window. -/
def console? (io : IoWindow δ) : Option Console :=
  io.devices.findSome? fun
    | .console c => some c
    | .custom _ => none

/-- The window with its first console changed. -/
def mapConsole (f : Console → Console) (io : IoWindow δ) : IoWindow δ :=
  { io with devices := go io.devices }
where
  go : List (Peripheral δ) → List (Peripheral δ)
    | [] => []
    | .console c :: ps => .console (f c) :: ps
    | .custom d :: ps => .custom d :: go ps

/-- What is typed goes to the first console. -/
def pushInput (io : IoWindow δ) (bytes : List UInt8) : IoWindow δ :=
  io.mapConsole (·.pushInput bytes)

/-- The output of the first console, and the window without it. -/
def takeOutput (io : IoWindow δ) : Option (List UInt8) × IoWindow δ :=
  (io.console?.map (·.takeOutput.1), io.mapConsole (·.takeOutput.2))

variable [Device δ]

/-- What answers for an access: the first device that covers it, or the memory behind. -/
def target? (io : IoWindow δ) (a : Word) (w : Width) : Option (Target io) :=
  match io.devices.findFinIdx? (Device.covers · a w.bytes) with
  | some place => some (.device place)
  | none => if io.backs a w.bytes then some (.backing (a.toNat - ioStart)) else none

/-- The call of a device at the offset of an address in its range. -/
def transaction (p : Peripheral δ) (a : Word) (w : Width) (operation : BusOperation) :
    Transaction :=
  ⟨Device.name p, operation, w, a - Device.base p⟩

/-- A read of the window, with what it asked of a device. -/
def read (io : IoWindow δ) (a : Word) (w : Width) (signed : Bool) :
    Except Trap (Reply (IoWindow δ) Word) :=
  match io.target? a w with
  | some (.device place) =>
    let p := io.devices[place]
    let t := transaction p a w .read
    let (v, p) := Device.read p t.offset w
    .ok ⟨w.extend v signed, { io with devices := io.devices.set place p }, [.bus t]⟩
  | some (.backing start) => .ok ⟨w.extend (io.backing.raw start w) signed, io, []⟩
  | none => .error (.unclaimedIo a w)

/-- What a read would answer, found without one. -/
def preview (io : IoWindow δ) (a : Word) (w : Width) (signed : Bool) :
    Except Trap (Reply (IoWindow δ) Word) :=
  match io.target? a w with
  | some (.device place) =>
    let p := io.devices[place]
    let t := transaction p a w .peek
    .ok ⟨w.extend (Device.peek p t.offset w) signed, io, [.bus t]⟩
  | some (.backing start) => .ok ⟨w.extend (io.backing.raw start w) signed, io, []⟩
  | none => .error (.unclaimedIo a w)

/-- A write of the window, with what it asked of a device and what was printed. -/
def write (io : IoWindow δ) (a : Word) (w : Width) (v : Word) :
    Except Trap (Reply (IoWindow δ) Unit) :=
  match io.target? a w with
  | some (.device place) =>
    let p := io.devices[place]
    let v := w.truncate v
    let t := transaction p a w (.write v)
    .ok ⟨(), { io with devices := io.devices.set place (Device.write p t.offset w v) },
      .bus t :: p.printed t.offset v⟩
  | some (.backing start) =>
    .ok ⟨(), { io with backing := io.backing.setBytes start (v.lowBytes w.bytes) }, []⟩
  | none => .error (.unclaimedIo a w)

/-- The window in one line: its size and the names of its devices. -/
def description (io : IoWindow δ) : String :=
  "IoMemory \x7b backing_size: " ++ Numeral.decimal io.backing.size ++ ", devices: [" ++
    ", ".intercalate (io.devices.map fun p => Quoted.text (Device.name p)) ++ "] \x7d"

end IoWindow

end Processor64
