import Processor64.CommandLine
import Processor64.Event.Text

/-!
# The program

Reads the files that the options name, and writes the report: the log and the failure to standard
error, everything else to standard output.
-/

namespace Processor64.CommandLine

/-- Why a file could not be read, in the words of the operating system. -/
def reasonOf : IO.Error → String
  | .noFileOrDirectory _ code _ =>
    "No such file or directory (os error " ++ Numeral.decimal code.toNat ++ ")"
  | .permissionDenied _ code _ =>
    "Permission denied (os error " ++ Numeral.decimal code.toNat ++ ")"
  | e => e.toString

/-- The bytes of a file, or why it cannot be read. -/
def contentsOf (path : String) : IO Contents := do
  try
    return .ok (← IO.FS.readBinFile path)
  catch e => return .error (reasonOf e)

end Processor64.CommandLine

open Processor64 CommandLine in
def main (arguments : List String) : IO UInt32 := do
  match Options.ofArguments arguments with
  | .error e =>
    IO.eprintln ("error: " ++ e.text)
    return 2
  | .ok o =>
    let config ← o.config.mapM contentsOf
    let report := execute o config (← contentsOf o.file)
    IO.print report.output
    for event in report.log do
      if let some line := event.line? then IO.eprintln line.text
    if let some reason := report.error then IO.eprintln reason
    return UInt32.ofNat report.exitCode
