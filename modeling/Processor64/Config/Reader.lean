import Processor64.Config
import Processor64.Json.Deserializer

/-!
# Reading configurations

A configuration is written as JSON, a record of four sections that are records themselves. A section
that is written gives each field its default here; one that is not written is the default of the
whole section. The sections are declared for any deserializer (`Config.ofTextBy`); the program reads
with the strict one.
-/

namespace Processor64

/-- The policies under the names a file gives them. -/
def TrapPolicy.variants : List (String × TrapPolicy) :=
  [halt, vector].map fun p => (p.name, p)

namespace GeneralConfig

def defaultStartAddress : Word := Defaults.startAddress

/-- The general section as a file declares it. -/
def declaration (l : Deserializer) : Declaration GeneralConfig :=
  .field (.field (.field (.record GeneralConfig.mk)
    ⟨"trace_instructions", l.bool, false⟩)
    ⟨"start_address", fun v => (l.unsigned v).map (BitVec.ofNat 64), defaultStartAddress⟩)
    ⟨"trap_policy", l.variant TrapPolicy.variants, .halt⟩

end GeneralConfig

namespace MemoryConfig

def defaultPhysicalSize : Nat := Defaults.physicalSize

def defaultIoSize : Nat := Defaults.ioSize

/-- The memory section as a file declares it. -/
def declaration (l : Deserializer) : Declaration MemoryConfig :=
  .field (.field (.record MemoryConfig.mk)
    ⟨"phys_mem_size", l.unsigned, defaultPhysicalSize⟩)
    ⟨"io_mem_size", l.unsigned, defaultIoSize⟩

end MemoryConfig

namespace TlbConfig

def defaultEntries : Nat := Defaults.tlbEntries

/-- The TLB section as a file declares it. -/
def declaration (l : Deserializer) : Declaration TlbConfig :=
  .field (.record TlbConfig.mk) ⟨"entries", l.unsigned, defaultEntries⟩

end TlbConfig

namespace ConsoleConfig

def defaultEnabled : Bool := true

def defaultOffset : Nat := Defaults.consoleOffset

/-- The console section as a file declares it. -/
def declaration (l : Deserializer) : Declaration ConsoleConfig :=
  .field (.field (.record ConsoleConfig.mk)
    ⟨"enabled", l.bool, defaultEnabled⟩)
    ⟨"offset", l.unsigned, defaultOffset⟩

end ConsoleConfig

namespace Config

/-- Each section is a record, and where it is not written the default of its kind. -/
def declaration (l : Deserializer) : Declaration Config :=
  .field (.field (.field (.field (.record Config.mk)
    ⟨"general", l.record (GeneralConfig.declaration l), {}⟩)
    ⟨"memory", l.record (MemoryConfig.declaration l), {}⟩)
    ⟨"tlb", l.record (TlbConfig.declaration l), {}⟩)
    ⟨"console", l.record (ConsoleConfig.declaration l), {}⟩

/-- The valid configuration of a text, read with a deserializer. -/
def ofTextBy (l : Deserializer) (text : String) : Except ConfigError Config :=
  match (l.parse text).bind (l.record (declaration l)) with
  | none => .error .malformed
  | some c => c.checked

/-- The configuration a text holds, read strictly. -/
def ofText (text : String) : Except ConfigError Config := ofTextBy .strict text

/-- The valid configuration of a file with these bytes, which must be UTF-8. -/
def ofBytes (bytes : ByteArray) : Except ConfigError Config :=
  match String.fromUTF8? bytes with
  | some text => ofText text
  | none => .error (.unreadable "stream did not contain valid UTF-8")

end Config

end Processor64
