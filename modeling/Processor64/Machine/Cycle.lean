import Processor64.Machine.Execute

/-!
# Cycles

One cycle fetches and executes the instruction at the address of the status word. It ends with the
instruction completed or with a trap, which stops the machine or enters the handler. A trap at the
first instruction of a handler always stops the machine, so no two cycles in a row enter one.
-/

namespace Processor64

/-- Bytes between the entries of two trap codes in the handler table. -/
def vectorStride : Nat := 32

namespace Session

variable {δ : Type}

/-- An instruction is complete: it is counted, and control goes where it says. -/
def retire (s : Session δ) (ia : BitVec 52) (flow : Flow) : Option StopReason × Session δ :=
  let s := s.mapMachine fun m =>
    let status := m.registers.status
    let status := match flow with
      | .next | .halt => status.withAddress (ia + 4)
      | .branch t => status.withAddress t
      | .restore saved => saved
    let c := m.counters
    let taken := match flow with
      | .branch _ => c.branchesTaken + 1
      | _ => c.branchesTaken
    { m with
      registers.status := status
      handlerEntry := none
      counters := { c with retired := c.retired + 1, branchesTaken := taken } }
  let s := if s.machine.settings.traceInstructions then
      s.emit [.retired (ia.setWidth 64) s.machine.registers.instruction]
    else s
  match flow with
  | .halt =>
    let s := s.mapMachine fun m => { m with state := .halted }
    (some .halted, s.emit [.halted (ia.setWidth 64)])
  | _ => (none, s)

/-- Enters the handler of a trap, with `saved` as the status word to return to. -/
def deliver (s : Session δ) (t : Trap) (saved : StatusWord) (table : Word) : Session δ :=
  let vector := table + BitVec.ofNat 64 (vectorStride * t.code.number)
  let s := s.mapMachine fun m =>
    let r := m.registers.setControl .trapStatus saved.toWord
    let r := r.setControl .trapCode (BitVec.ofNat 64 t.code.number)
    let r := r.setControl .trapInfo1 (t.info1.setWidth 64)
    let r := r.setControl .trapInfo2 (t.info2.setWidth 64)
    let r := r.setControl .trapInfo3 (t.info3.setWidth 64)
    { m with
      registers := { r with status := .atStart vector }
      handlerEntry := some vector
      counters := { m.counters with trapsVectored := m.counters.trapsVectored + 1 } }
  s.emit [.trapDelivered t.code vector]

/-- A trap ends the run: the processor waits for its host. -/
def stopTrapped (s : Session δ) (r : TrapRecord) (status : StatusWord) :
    Option StopReason × Session δ :=
  (some (.trapped r), s.mapMachine fun m =>
    { m with registers := { m.registers with status := status }, state := .trapped })

/-- Records the trap of the instruction at `ia`. Only a software trap goes on after its
instruction; after any other trap the instruction is tried again. -/
def takeTrap (s : Session δ) (t : Trap) (ia : BitVec 52) : Option StopReason × Session δ :=
  let record : TrapRecord := ⟨t, ia.setWidth 64⟩
  let entered := s.machine.handlerEntry
  let s := s.mapMachine fun m =>
    { m with
      registers := m.registers.dropReservation
      counters := m.counters.recordTrap t.code
      lastTrap := some record
      handlerEntry := none }
  let s := s.emit [.trapRaised t record.address]
  let status := s.machine.registers.status.withAddress
    (if t.code = .software then ia + 4 else ia)
  let table := s.machine.registers.control .vectorAddress
  if s.machine.settings.trapPolicy = .vector ∧ table ≠ 0 then
    match entered with
    | none => (none, s.deliver t status table)
    | some entry => (s.emit [.trapAtHandlerEntry t.code entry]).stopTrapped record status
  else s.stopTrapped record status

variable [Device δ]

/-- One instruction, or the delivery of the trap it raises. -/
def cycle (s : Session δ) : Option StopReason × Session δ :=
  let s := s.count fun c => { c with cycles := c.cycles + 1 }
  let ia := s.machine.registers.status.address
  match Exec.instructionAt ia s with
  | .ok flow s => s.retire ia flow
  | .error t s => s.takeTrap t ia

/-- Up to `n` cycles, fewer if one gives a reason to stop. -/
def cycles : Nat → Session δ → Option StopReason × Session δ
  | 0, s => (none, s)
  | n + 1, s =>
    match s.cycle with
    | (some r, s) => (some r, s)
    | (none, s) => cycles n s

end Session

end Processor64
