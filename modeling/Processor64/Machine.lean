import Processor64.Memory
import Processor64.Registers
import Processor64.Statistics
import Processor64.Translation

/-!
# The machine

A machine is its registers, translation buffer and memory with the state of its run: whether it may
execute, its last trap, its counts, and the handler that it has entered and not yet obeyed.
-/

namespace Processor64

/-- A machine is created in `reset`, and only a reset takes it out of `halted`. -/
inductive RunState where
  | reset
  | running
  | trapped
  | halted
  deriving DecidableEq, Repr

def RunState.text : RunState → String
  | reset => "RESET"
  | running => "RUNNING"
  | trapped => "TRAPPED"
  | halted => "HALTED"

/-- Why stepping ended. -/
inductive StopReason where
  | completed
  | halted
  | trapped (r : TrapRecord)
  | budgetExhausted
  deriving DecidableEq, Repr

/-- The reason as a message names it. -/
def StopReason.text : StopReason → String
  | completed => "completed"
  | halted => "halted"
  | trapped r => "trapped: " ++ r.text
  | budgetExhausted => "budget exhausted"

/-- A request that the state of the run does not allow. -/
inductive HostError where
  | notRunning (state : RunState)
  | notTrapped (state : RunState)
  deriving DecidableEq, Repr

def HostError.text : HostError → String
  | notRunning s =>
    "CPU is " ++ s.text ++ ", it must be reset or resumed before stepping"
  | notTrapped s => "CPU is " ++ s.text ++ ", only a trapped CPU can be resumed"

/-- The version a program reads in its identification. -/
def processorVersion : Nat := 2

/-- A processor and its memory. -/
structure Machine (δ : Type) where
  settings : GeneralConfig
  registers : Registers
  tlb : Tlb
  memory : Memory δ
  state : RunState
  lastTrap : Option TrapRecord
  counters : Counters
  /-- The handler entered by the last trap, until an instruction of it completes. -/
  handlerEntry : Option Word

namespace Machine

variable {δ : Type}

/-- The machine of a configuration, before its first reset. -/
def create (c : Config) : Machine δ where
  settings := c.general
  registers := .cleared
  tlb := .create c.tlb.entries
  memory := .create c
  state := .reset
  lastTrap := none
  counters := {}
  handlerEntry := none

/-- The version in the upper half over the number of translation entries. -/
def identification (m : Machine δ) : Word :=
  BitVec.ofNat 64 processorVersion <<< 32 ||| BitVec.ofNat 64 m.tlb.capacity

/-- The counters of the processor and of its TLB. -/
def statistics (m : Machine δ) : Statistics :=
  { m.counters with tlbHits := m.tlb.hits, tlbMisses := m.tlb.misses }

/-- What accesses are judged by: the status word and the low halves of the protection ids. -/
def accessContext (m : Machine δ) : AccessContext where
  status := m.registers.status
  protectionIds :=
    [.protectionId0, .protectionId1, .protectionId2, .protectionId3].map fun c =>
      (m.registers.control c).setWidth 32

/-- Empties registers, translation buffer, last trap and counts, and starts at the start address.
Memory stays. -/
def reset (m : Machine δ) : Machine δ :=
  let registers := Registers.cleared.setControl .cpuInfo m.identification
  { m with
    registers := { registers with status := .atStart m.settings.startAddress }
    tlb := m.tlb.reset.clearCounters
    state := .running
    lastTrap := none
    counters := {}
    handlerEntry := none }

/-- Moves to another instruction and keeps the status bits. -/
def setProgramAddress (m : Machine δ) (a : Word) : Machine δ :=
  { m with
    registers.status := m.registers.status.withAddress (a.extractLsb' 0 52)
    handlerEntry := none }

end Machine

end Processor64
