import Processor64.Config.Reader
import Processor64.Machine.Host
import Processor64.Statistics.Report
import Processor64.Text.Utf8

/-!
# The command line

`run` loads a program image, runs it until it stops or its cycles are used up, and reports why it
stopped, the registers, what it wrote to the console, and the statistics. `Options.ofArguments`
reads the options, and `execute` makes the whole report from the contents of the files.
-/

namespace Processor64.CommandLine

/-- What the command line asks for. -/
structure Options where
  /-- The program image. -/
  file : String
  loadAddress : Option Nat := none
  config : Option String := none
  maxSteps : Option Nat := none
  trace : Bool := false
  input : Option String := none
  json : Bool := false
  deriving DecidableEq, Repr

/-- Why a command line is refused. -/
inductive UsageError where
  | noCommand
  | unknownArgument (name : String)
  | valueMissing (name : String)
  | valueRefused (name value : String)
  | fileMissing
  deriving DecidableEq, Repr

def UsageError.text : UsageError → String
  | noCommand => "the command 'run' is required"
  | unknownArgument name => "unexpected argument '" ++ name ++ "'"
  | valueMissing name => "a value is required for '" ++ name ++ "'"
  | valueRefused name value => "invalid value '" ++ value ++ "' for '" ++ name ++ "'"
  | fileMissing => "the option '--file' is required"

/-- A decimal number, or a hexadecimal one after `0x` with underscores between its digits. -/
def address? (text : String) : Option Nat :=
  match text.toList with
  | '0' :: 'x' :: s | '0' :: 'X' :: s => Numeral.unsigned? 16 (s.filter (· ≠ '_'))
  | s => Numeral.unsigned? 10 s

/-- The name of an argument and the value after its equals sign. -/
def splitArgument (text : String) : String × Option String :=
  match text.toList.span (· ≠ '=') with
  | (name, _ :: value) => (String.ofList name, some (String.ofList value))
  | (_, []) => (text, none)

/-- The options read so far; the image is not known at first. -/
structure Draft where
  file : Option String := none
  rest : Options := { file := "" }

namespace Draft

/-- The options with a flag set, if the argument is one. -/
def setFlag? (p : Draft) : String → Option Draft
  | "--trace" => some { p with rest.trace := true }
  | "--json" => some { p with rest.json := true }
  | _ => none

/-- Whether an option is followed by a value. -/
def takesValue (name : String) : Bool :=
  ["-f", "--file", "-c", "--config", "--load-address", "--max-steps", "--input"].contains name

/-- The options with a value set, if the value is one the option admits. -/
def setValue? (p : Draft) (name value : String) : Option Draft :=
  match name with
  | "-f" | "--file" => some { p with file := some value }
  | "-c" | "--config" => some { p with rest.config := some value }
  | "--load-address" => (address? value).map fun n => { p with rest.loadAddress := some n }
  | "--max-steps" =>
    (Numeral.unsigned? 10 value.toList).map fun n => { p with rest.maxSteps := some n }
  | "--input" => some { p with rest.input := some value }
  | _ => none

/-- The options with a value set, or the refusal of the value. -/
def set (p : Draft) (name value : String) : Except UsageError Draft :=
  match p.setValue? name value with
  | some p => .ok p
  | none => .error (.valueRefused name value)

def read : Draft → List String → Except UsageError Draft
  | p, [] => .ok p
  | p, argument :: arguments =>
    match p.setFlag? argument, splitArgument argument with
    | some p, _ => read p arguments
    | none, (name, value) =>
      if takesValue name then
        match value, arguments with
        | some v, arguments => do read (← p.set name v) arguments
        | none, v :: arguments => do read (← p.set name v) arguments
        | none, [] => .error (.valueMissing name)
      else .error (.unknownArgument argument)

end Draft

/-- The options of the command `run`. -/
def Options.ofArguments : List String → Except UsageError Options
  | "run" :: arguments => do
    let p ← Draft.read {} arguments
    match p.file with
    | some file => .ok { p.rest with file := file }
    | none => .error .fileMissing
  | _ => .error .noCommand

/-- The contents of a file, or why it could not be read. -/
abbrev Contents := Except String ByteArray

/-- What a run leaves behind. -/
structure Report where
  /-- What goes to standard output. -/
  output : String
  /-- Why there was no run. -/
  error : Option String
  exitCode : Nat
  log : Array Event

/-- The exit code of a command that could not be carried out. -/
def failureCode : Nat := 2

/-- A report without a run. -/
def Report.failed (output reason : String) (log : Array Event) : Report :=
  ⟨output, some ("[!] " ++ reason), failureCode, log⟩

/-- The configuration of a file, or the default without one, under the options. -/
def configuration (o : Options) (contents : Option Contents) : Except ConfigError Config := do
  let c ← match contents with
    | none => .ok {}
    | some (.error reason) => .error (.unreadable reason)
    | some (.ok bytes) => Config.ofBytes bytes
  let general := c.general
  return { c with general := { general with
    traceInstructions := o.trace || general.traceInstructions
    startAddress := match o.loadAddress with
      | some a => BitVec.ofNat 64 a
      | none => general.startAddress } }

/-- The line that names the sizes and the policy of a run. -/
def configurationLine (c : Config) : String :=
  "Configuration: phys " ++ Numeral.decimal (c.memory.physicalSize / 1024) ++ " KiB  io " ++
    Numeral.decimal (c.memory.ioSize / 1024) ++ " KiB  tlb " ++ Numeral.decimal c.tlb.entries ++
    "  policy " ++ c.general.trapPolicy.name ++ "\n"

/-- What a stopped machine leaves to be told. -/
def outcome (o : Options) (reason : StopReason) (m : Machine Empty) : String :=
  let console := match m.memory.io.console? with
    | some c =>
      if c.output.isEmpty then ""
      else "--- console ---\n" ++ Utf8.decode c.output.toList ++ "\n"
    | none => ""
  let statistics := if o.json then m.statistics.indentedObject else m.statistics.text
  "\n[*] Stopped: " ++ reason.text ++ "\n" ++ m.registers.dump ++ "\n" ++ console ++
    statistics ++ "\n"

/-- The exit code of a run that stopped: one for a trap, zero for all else. -/
def exitCode : StopReason → Nat
  | .trapped _ => 1
  | _ => 0

/-- Runs a session that has its program, and adds to what was written before. -/
def runLoaded (o : Options) (written : String) (s : Session Empty) : Report :=
  let s := s.mapMachine fun m =>
    { m with memory.io := m.memory.io.pushInput ((o.input.getD "").toUTF8.toList) }
  match s.reset.run o.maxSteps with
  | (.error e, s) => .failed written e.text s.log
  | (.ok reason, s) => ⟨written ++ outcome o reason s.machine, none, exitCode reason, s.log⟩

/-- The report of the command for the contents of the configuration and of the image. -/
def execute (o : Options) (config : Option Contents) (image : Contents) : Report :=
  match configuration o config with
  | .error e => .failed "" e.text #[]
  | .ok c =>
    let written := configurationLine c
    match Session.create c with
    | .error e => .failed written e.text #[]
    | .ok s =>
      match image with
      | .error reason => .failed written (ImageError.unreadable o.file reason).text s.log
      | .ok bytes =>
        match s.installImage o.file bytes.toList c.general.startAddress with
        | (.error e, s) => .failed written e.text s.log
        | (.ok n, s) =>
          runLoaded o
            (written ++ "[*] Loaded " ++ o.file ++ " (" ++ Numeral.decimal n ++ " bytes) at " ++
              Numeral.hex c.general.startAddress.toNat ++ "\n") s

end Processor64.CommandLine
