import Processor64.Machine.Session

/-!
# Images

A program image is a run of bytes that is copied into physical memory, as a whole or not at all.
-/

namespace Processor64

/-- Why an image is not installed. -/
inductive ImageError where
  | unreadable (path reason : String)
  | empty (path : String)
  | doesNotFit (length : Nat) (address : Word) (trap : Trap)
  deriving DecidableEq, Repr

def ImageError.text : ImageError → String
  | unreadable path reason => "cannot read image '" ++ path ++ "': " ++ reason
  | empty path => "image '" ++ path ++ "' is empty"
  | doesNotFit n a t =>
    "image of " ++ Numeral.decimal n ++ " bytes does not fit at " ++ Numeral.hex a.toNat ++ ": " ++
      t.text

namespace Session

variable {δ : Type}

/-- Copies the bytes of the file at `path` to an address and tells how many they are. -/
def installImage (s : Session δ) (path : String) (bytes : List UInt8) (a : Word) :
    Except ImageError Nat × Session δ :=
  if bytes.isEmpty then (.error (.empty path), s)
  else
    let s := s.emit [.imageRead bytes.length]
    match s.machine.memory.load a bytes with
    | .error t => (.error (.doesNotFit bytes.length a t), s)
    | .ok memory =>
      let s := s.mapMachine fun m => { m with memory := memory }
      (.ok bytes.length, s.emit [.imageInstalled a bytes.length])

end Session

end Processor64
