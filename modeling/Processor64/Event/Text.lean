import Processor64.Event
import Processor64.Instruction.Text

/-!
# Texts of events

An event is written as a level, a message and named fields. Transactions with devices are for
listeners on the bus and have no text.
-/

namespace Processor64

/-- One line of a log: its level, its message and the fields beside it. -/
structure LogLine where
  level : String
  message : String
  fields : List (String × String)
  deriving DecidableEq, Repr

namespace Event

def address (a : Word) : String := Numeral.hex a.toNat

/-- The line an event is logged as, if it is logged. -/
def line? : Event → Option LogLine
  | deviceAttached name base size =>
    some ⟨"DEBUG", "device attached", [("name", name),
      ("range", "(" ++ Numeral.decimal base.toNat ++ ", " ++ Numeral.decimal size.toNat ++ ")")]⟩
  | reset start entries =>
    some ⟨"INFO", "cpu reset",
      [("start", address start), ("tlb_entries", Numeral.decimal entries)]⟩
  | resumed a => some ⟨"INFO", "cpu resumed", [("ia", address a)]⟩
  | halted a => some ⟨"INFO", "cpu halted", [("ia", address a)]⟩
  | retired a w =>
    some ⟨"TRACE", InstructionWord.text w,
      [("ia", Numeral.hexFilled 8 a.toNat), ("raw", Numeral.hexFilled 8 w.toNat)]⟩
  | trapRaised t a =>
    some ⟨"DEBUG", "trap raised", [("code", t.code.name), ("ia", address a),
      ("info1", Numeral.hex t.info1.toNat), ("info2", Numeral.hex t.info2.toNat),
      ("info3", Numeral.hex t.info3.toNat)]⟩
  | trapDelivered code vector =>
    some ⟨"DEBUG", "trap delivered", [("code", code.name), ("vector", address vector)]⟩
  | trapAtHandlerEntry code entry =>
    some ⟨"WARN", "trap at handler entry, stopping",
      [("code", code.name), ("entry", address entry)]⟩
  | tlbInserted slot virtualAddress physicalAddress rights protectionId =>
    some ⟨"DEBUG", "tlb insert", [("slot", Numeral.decimal slot),
      ("vaddr", address virtualAddress), ("paddr", address physicalAddress),
      ("access_id", Numeral.decimal rights.toNat),
      ("protect_id", Numeral.decimal protectionId.toNat)]⟩
  | tlbPurgeMissed a => some ⟨"DEBUG", "tlb purge missed", [("vaddr", address a)]⟩
  | bus _ => none
  | consoleOutput b =>
    some ⟨"DEBUG", "console output", [("byte", Numeral.decimal b.toNat),
      ("ch", String.singleton (Char.ofNat b.toNat))]⟩
  | imageRead n => some ⟨"INFO", "image read", [("len", Numeral.decimal n)]⟩
  | imageInstalled a n =>
    some ⟨"INFO", "image installed", [("addr", address a), ("len", Numeral.decimal n)]⟩

end Event

/-- The line as text, fields last. -/
def LogLine.text (l : LogLine) : String :=
  l.level ++ " " ++ l.message ++
    String.join (l.fields.map fun (name, value) => " " ++ name ++ "=" ++ value)

end Processor64
