import Processor64.Machine

/-!
# Sessions

A session is a machine with the log of what it has reported so far. `Exec` computations work on a
session and end with a value or a trap; what a computation did before a trap is not taken back.
-/

namespace Processor64

/-- A machine and what it has reported. -/
structure Session (δ : Type) where
  machine : Machine δ
  log : Array Event

abbrev Exec (δ : Type) := EStateM Trap (Session δ)

namespace Session

variable {δ : Type}

/-- A session reports events, after those before. -/
def emit (s : Session δ) (es : List Event) : Session δ :=
  { s with log := s.log ++ es }

/-- A session with its machine changed. -/
def mapMachine (s : Session δ) (f : Machine δ → Machine δ) : Session δ :=
  { s with machine := f s.machine }

def count (s : Session δ) (f : Counters → Counters) : Session δ :=
  s.mapMachine fun m => { m with counters := f m.counters }

/-- A session with a machine of a valid configuration; its console is the first thing reported. -/
def create [Device δ] (c : Config) : Except ConfigError (Session δ) :=
  match c.fault? with
  | some e => .error e
  | none =>
    let m := Machine.create c
    .ok ⟨m, (m.memory.io.devices.map Peripheral.attachment).toArray⟩

/-- The log so far, and the session with an empty one. -/
def takeLog (s : Session δ) : Array Event × Session δ :=
  (s.log, { s with log := #[] })

end Session

namespace Exec

variable {δ : Type}

def machine : Exec δ (Machine δ) := return (← get).machine

def mapMachine (f : Machine δ → Machine δ) : Exec δ Unit :=
  modify (·.mapMachine f)

def registers : Exec δ Registers := return (← machine).registers

def mapRegisters (f : Registers → Registers) : Exec δ Unit :=
  mapMachine fun m => { m with registers := f m.registers }

def count (f : Counters → Counters) : Exec δ Unit :=
  modify (·.count f)

def emit (es : List Event) : Exec δ Unit :=
  modify (·.emit es)

/-- Ends with the trap of a failed step. -/
def ofExcept {α : Type} : Except Trap α → Exec δ α
  | .ok v => pure v
  | .error t => throw t

def general (r : Register) : Exec δ Word := return (← registers).general r

def setGeneral (r : Register) (v : Word) : Exec δ Unit :=
  mapRegisters (·.setGeneral r v)

def control (c : ControlRegister) : Exec δ Word := return (← registers).control c

def status : Exec δ StatusWord := return (← registers).status

end Exec

end Processor64
