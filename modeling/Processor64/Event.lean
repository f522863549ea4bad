import Processor64.Trap

/-!
# Events

What a machine reports while it works: the life cycle of the processor, its traps and translation
entries, the devices, and every transaction with a device.
-/

namespace Processor64

/-- What a device was asked to do; a write carries its value. -/
inductive BusOperation where
  | read
  | peek
  | write (value : Word)
  deriving DecidableEq, Repr

/-- One call of a device, at an offset from its base. -/
structure Transaction where
  device : String
  operation : BusOperation
  width : Width
  offset : Word
  deriving DecidableEq, Repr

/-- What a session reports while it runs. -/
inductive Event where
  | deviceAttached (name : String) (base size : Word)
  | reset (start : Word) (tlbEntries : Nat)
  | resumed (address : Word)
  | halted (address : Word)
  | retired (address : Word) (instruction : BitVec 32)
  | trapRaised (trap : Trap) (address : Word)
  | trapDelivered (code : TrapCode) (vector : Word)
  | trapAtHandlerEntry (code : TrapCode) (entry : Word)
  | tlbInserted (slot : Nat) (virtualAddress physicalAddress : Word) (rights : BitVec 8)
      (protectionId : BitVec 32)
  | tlbPurgeMissed (virtualAddress : Word)
  | bus (transaction : Transaction)
  | consoleOutput (byte : UInt8)
  | imageRead (length : Nat)
  | imageInstalled (address : Word) (length : Nat)
  deriving DecidableEq, Repr

/-- What an access answers, what it leaves behind, and what it reports. -/
structure Reply (σ α : Type) where
  value : α
  after : σ
  events : List Event

/-- The same answer of a larger state around the one that answered. -/
def Reply.within {σ τ α : Type} (r : Reply σ α) (f : σ → τ) : Reply τ α :=
  ⟨r.value, f r.after, r.events⟩

end Processor64
