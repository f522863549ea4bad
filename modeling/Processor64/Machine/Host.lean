import Processor64.Machine.Cycle
import Processor64.Machine.Image

/-!
# The host

What the surroundings of a machine may do with it: reset, step, run and resume it, set its
registers, and reach its memory and devices. `Session.perform` does one command; a command that the
state of the run does not allow is refused and changes nothing.
-/

namespace Processor64

namespace Session

variable {δ : Type}

/-- The processor starts over; memory keeps its contents. -/
def reset (s : Session δ) : Session δ :=
  let s := s.mapMachine (·.reset)
  s.emit [.reset s.machine.settings.startAddress s.machine.tlb.capacity]

/-- Lets a trapped machine run again, from the address in its status word. -/
def resume (s : Session δ) : Except HostError Unit × Session δ :=
  if s.machine.state = .trapped then
    let s := s.mapMachine fun m => { m with state := .running }
    (.ok (), s.emit [.resumed s.machine.registers.status.location])
  else (.error (.notTrapped s.machine.state), s)

variable [Device δ]

/-- The host asks for a number of cycles. -/
def step (s : Session δ) (n : Nat) : Except HostError StopReason × Session δ :=
  if s.machine.state = .running then
    let (stop, s) := s.cycles n
    (.ok (stop.getD .completed), s)
  else (.error (.notRunning s.machine.state), s)

/-- The cycles after which a run without a budget is given up: as many as a count of 64 bits can
tell apart. -/
def cycleLimit : Nat := UInt64.size

/-- Cycles until there is a reason to stop, or the budget is used up. A run without a budget has no
other end than a reason to stop; here it is given up after `cycleLimit` cycles, and only then is it
answered with `budgetExhausted`. -/
def run (s : Session δ) (budget : Option Nat) : Except HostError StopReason × Session δ :=
  if s.machine.state = .running then
    let (stop, s) := s.cycles (budget.getD cycleLimit)
    (.ok (stop.getD .budgetExhausted), s)
  else (.error (.notRunning s.machine.state), s)

/-- A device joins the I/O window. -/
def attach (s : Session δ) (p : Peripheral δ) : Session δ :=
  let s := s.mapMachine fun m => { m with memory.io := m.memory.io.attach p }
  s.emit [p.attachment]

end Session

/-- What a host can ask of a session. -/
inductive Command (δ : Type) where
  | reset
  | step (count : Nat)
  | run (budget : Option Nat)
  | resume
  | setProgramAddress (a : Word)
  | setGeneral (number v : Word)
  | setControl (number : BitVec 32) (v : Word)
  | load (a : Word) (w : Width) (signed : Bool)
  | store (a : Word) (w : Width) (v : Word)
  | fetch (a : Word)
  | translate (a : Word) (w : Width) (k : AccessKind)
  | hostStore (p : Word) (w : Width) (v : Word)
  | readMemory (p : Word) (w : Width) (signed : Bool)
  | previewMemory (p : Word) (w : Width) (signed : Bool)
  | writeMemory (p : Word) (w : Width) (v : Word)
  | readPhysical (p : Word) (w : Width) (signed : Bool)
  | writePhysical (p : Word) (w : Width) (v : Word)
  | loadPhysical (p : Word) (bytes : List UInt8)
  | readIo (p : Word) (w : Width) (signed : Bool)
  | writeIo (p : Word) (w : Width) (v : Word)
  | installImage (path : String) (bytes : List UInt8) (p : Word)
  | attach (p : Peripheral δ)
  | pushInput (bytes : List UInt8)
  | takeOutput

/-- What a host is told. -/
inductive Answer where
  | done
  | word (v : Word)
  | accepted (yes : Bool)
  | stopped (r : StopReason)
  | refused (e : HostError)
  | trapped (t : Trap)
  | installed (length : Nat)
  | notInstalled (e : ImageError)
  | output (bytes : Option (List UInt8))
  deriving DecidableEq, Repr

namespace Session

variable {δ : Type}

/-- The answer of a computation, whose trap is an answer too. -/
def answer {α : Type} (s : Session δ) (x : Exec δ α) (f : α → Answer) : Answer × Session δ :=
  match x s with
  | .ok v s => (f v, s)
  | .error t s => (.trapped t, s)

/-- The answer to a request to run. -/
def answerStop : Except HostError StopReason × Session δ → Answer × Session δ
  | (.ok r, s) => (.stopped r, s)
  | (.error e, s) => (.refused e, s)

/-- A host's request is carried out. -/
def perform [Device δ] (s : Session δ) : Command δ → Answer × Session δ
  | .reset => (.done, s.reset)
  | .step n => answerStop (s.step n)
  | .run budget => answerStop (s.run budget)
  | .resume =>
    match s.resume with
    | (.ok (), s) => (.done, s)
    | (.error e, s) => (.refused e, s)
  | .setProgramAddress a => (.done, s.mapMachine (·.setProgramAddress a))
  | .setGeneral n v =>
    match s.machine.registers.setGeneralAt n v with
    | .ok r => (.done, s.mapMachine fun m => { m with registers := r })
    | .error t => (.trapped t, s)
  | .setControl n v =>
    match s.machine.registers.setControlAt n v with
    | .ok r => (.accepted true, s.mapMachine fun m => { m with registers := r })
    | .error _ => (.accepted false, s)
  | .load a w signed => s.answer (Exec.load a w signed) .word
  | .store a w v => s.answer (Exec.store a w v) fun _ => .done
  | .fetch a => s.answer (Exec.fetch a) fun v => .word (v.setWidth 64)
  | .translate a w k => s.answer (Exec.translate a w k) .word
  | .hostStore p w v => s.answer (Exec.hostStore p w v) fun _ => .done
  | .readMemory p w signed => s.answer (Exec.readMemory p w signed) .word
  | .previewMemory p w signed => s.answer (Exec.previewMemory p w signed) .word
  | .writeMemory p w v => s.answer (Exec.writeMemory p w v) fun _ => .done
  | .readPhysical p w signed =>
    s.answer (Exec.absorb (s.machine.memory.readPhysical p w signed)) .word
  | .writePhysical p w v =>
    s.answer (Exec.absorb (s.machine.memory.writePhysical p w v)) fun _ => .done
  | .loadPhysical p bytes =>
    match s.machine.memory.load p bytes with
    | .ok memory => (.done, s.mapMachine fun m => { m with memory := memory })
    | .error t => (.trapped t, s)
  | .readIo p w signed => s.answer (Exec.absorb (s.machine.memory.readIo p w signed)) .word
  | .writeIo p w v => s.answer (Exec.absorb (s.machine.memory.writeIo p w v)) fun _ => .done
  | .installImage path bytes p =>
    match s.installImage path bytes p with
    | (.ok n, s) => (.installed n, s)
    | (.error e, s) => (.notInstalled e, s)
  | .attach p => (.done, s.attach p)
  | .pushInput bytes =>
    (.accepted s.machine.memory.io.console?.isSome,
      s.mapMachine fun m => { m with memory.io := m.memory.io.pushInput bytes })
  | .takeOutput =>
    let (bytes, io) := s.machine.memory.io.takeOutput
    (.output bytes, s.mapMachine fun m => { m with memory.io := io })

end Session

end Processor64
