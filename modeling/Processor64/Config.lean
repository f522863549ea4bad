import Processor64.Memory.Console

/-!
# Configuration

The sizes and settings of a machine in four sections, each with defaults. A configuration is valid
when its physical memory is a whole number of pages below the I/O window, its I/O memory fits in
the window and holds the console, and there is a translation entry.
-/

namespace Processor64

/-- What a trap does: it stops the machine, or goes to the handler if there is one. -/
inductive TrapPolicy where
  | halt
  | vector
  deriving DecidableEq, Repr

/-- The name of a policy in a configuration file and in the output. -/
def TrapPolicy.name : TrapPolicy → String
  | halt => "Halt"
  | vector => "Vector"

namespace Defaults

/-- Where the first instruction is fetched. -/
def startAddress : Word := 0

/-- Bytes of physical memory: 1 MiB. -/
def physicalSize : Nat := 0x100000

/-- Bytes of plain I/O memory: 64 KiB. -/
def ioSize : Nat := 0x10000

/-- The number of TLB entries. -/
def tlbEntries : Nat := 64

/-- Where the console stands in the I/O window. -/
def consoleOffset : Nat := 0x1000

end Defaults

/-- How instructions are executed. -/
structure GeneralConfig where
  traceInstructions : Bool := false
  startAddress : Word := Defaults.startAddress
  trapPolicy : TrapPolicy := .halt
  deriving DecidableEq, Repr

/-- The sizes of the two memories in bytes. -/
structure MemoryConfig where
  physicalSize : Nat := Defaults.physicalSize
  ioSize : Nat := Defaults.ioSize
  deriving DecidableEq, Repr

/-- The size of the TLB. -/
structure TlbConfig where
  entries : Nat := Defaults.tlbEntries
  deriving DecidableEq, Repr

/-- Whether there is a console, and how far into the I/O window it sits. -/
structure ConsoleConfig where
  enabled : Bool := true
  offset : Nat := Defaults.consoleOffset
  deriving DecidableEq, Repr

/-- The first address of the console. -/
def ConsoleConfig.base (c : ConsoleConfig) : Word := BitVec.ofNat 64 (ioStart + c.offset)

/-- A configuration in its four sections. -/
structure Config where
  general : GeneralConfig := {}
  memory : MemoryConfig := {}
  tlb : TlbConfig := {}
  console : ConsoleConfig := {}
  deriving DecidableEq, Repr

/-- Why there is no configuration, or why it is refused, with the values that are at fault. -/
inductive ConfigError where
  | unreadable (reason : String)
  | malformed
  | unevenPhysicalMemory (size : Nat)
  | physicalMemoryOverlapsIo (size : Nat)
  | ioMemoryTooLarge (size : Nat)
  | noTlbEntries
  | consoleMisplaced (offset available : Nat)
  deriving DecidableEq, Repr

def ConfigError.text : ConfigError → String
  | unreadable reason => "cannot read config file: " ++ reason
  | malformed => "invalid config"
  | unevenPhysicalMemory n =>
    "physical memory size " ++ Numeral.hex n ++ " must be a non-zero multiple of the page size"
  | physicalMemoryOverlapsIo n =>
    "physical memory size " ++ Numeral.hex n ++ " overlaps the I/O window"
  | ioMemoryTooLarge n => "I/O memory size " ++ Numeral.hex n ++ " exceeds the I/O window"
  | noTlbEntries => "TLB must have at least one entry"
  | consoleMisplaced offset available =>
    "console at offset " ++ Numeral.hex offset ++ " does not fit in " ++ Numeral.hex available ++
      " bytes of I/O memory"

/-- The sum of two words as numbers, if it is one. -/
def checkedSum (a n : Nat) : Option Nat :=
  if a + n < UInt64.size then some (a + n) else none

/-- A sum that is no word is beyond every limit that is one. -/
theorem checkedSum_all_iff {a n limit : Nat} (h : limit < UInt64.size) :
    (checkedSum a n).all (limit < ·) = true ↔ limit < a + n := by
  unfold checkedSum
  split
  · simp
  · simp only [Option.all_none, true_iff]
    omega

namespace Config

/-- The first check that the configuration fails, if it fails one. -/
def fault? (c : Config) : Option ConfigError :=
  let physical := c.memory.physicalSize
  let io := c.memory.ioSize
  if physical = 0 ∨ physical % pageSize ≠ 0 then some (.unevenPhysicalMemory physical)
  else if ioStart < physical then some (.physicalMemoryOverlapsIo physical)
  else if ioWindowSize < io then some (.ioMemoryTooLarge io)
  else if c.tlb.entries = 0 then some .noTlbEntries
  else if c.console.enabled ∧ (checkedSum c.console.offset Console.size).all (io < ·) then
    some (.consoleMisplaced c.console.offset io)
  else none

/-- Where I/O memory fits in its window, the console is misplaced if it ends beyond it. -/
theorem misplaced_iff {offset io : Nat} (h : io ≤ ioWindowSize) :
    (checkedSum offset Console.size).all (io < ·) = true ↔ io < offset + Console.size :=
  checkedSum_all_iff (Nat.lt_of_le_of_lt h (by decide))

/-- The configuration if it passes its checks, and otherwise the first that it fails. -/
def checked (c : Config) : Except ConfigError Config :=
  match c.fault? with
  | none => .ok c
  | some e => .error e

end Config

end Processor64
