import Processor64.Instruction.Decode
import Processor64.Machine.Access

/-!
# Execution of instructions

What each instruction does to a session, and where execution continues. A privileged word is
refused in user mode before anything else, and an illegal one before its operands are looked at.
Nothing is committed until nothing can fail.
-/

namespace Processor64

/-- Where control goes after an instruction. -/
inductive Flow where
  | next
  | branch (target : BitVec 52)
  | restore (status : StatusWord)
  | halt
  deriving DecidableEq, Repr

/-- A trap about the instruction itself: its word, its group and its family. -/
def InstructionWord.trap (w : InstructionWord) (code : TrapCode) : Trap :=
  ⟨code, w, w.group.setWidth 32, w.family.setWidth 32⟩

namespace Exec

variable {δ : Type}

/-- What a second operand holds. -/
def operand : Operand → Exec δ Word
  | .register a => general a
  | .immediate v => return v.signExtend 64

/-- The address an address operand stands for. -/
def operandAddress : MemoryOperand → Exec δ Word
  | .indexed base index => return (← general base) + (← general index)
  | .displaced base v => return (← general base) + v.signExtend 64

/-- The shift amount, modulo the width of a word. -/
def shiftAmount : Exec δ Nat := return (← control .shiftAmount).toNat % 64

/-- An instruction writes its result and control goes on. -/
def result (r : Register) (v : Word) : Exec δ Flow := do
  setGeneral r v
  return .next

/-- Sets a register to a checked value, or traps on `none`. -/
def checkedResult (w : InstructionWord) (r : Register) (v : Option Word) : Exec δ Flow :=
  match v with
  | some v => result r v
  | none => throw (w.trap .overflow)

/-- A truth value in a register. -/
def flag (b : Bool) : Word := if b then 1 else 0

/-- A branch to an aligned address of 52 bits; any other target traps. -/
def branchTo (t : Word) : Exec δ Flow :=
  if Width.word.isAligned t && t.extractLsb' 52 12 == 0 then return .branch (t.extractLsb' 0 52)
  else throw (.misaligned t .word)

/-- The address after an instruction, as a word. -/
def following (ia : BitVec 52) : Word := ia.setWidth 64 + 4

/-- The address a count of instructions away from `ia`. -/
def relative {n : Nat} (ia : BitVec 52) (d : BitVec n) : Word :=
  ia.setWidth 64 + d.signExtend 64 * 4

/-- The four operations on a field of a register. -/
def bitField (op : FieldOp) (r b : Register) (position length : Nat) : Exec δ Flow := do
  let v ← general b
  match op with
  | .extract => result r (BitField.extract v position length false)
  | .extractSigned => result r (BitField.extract v position length true)
  | .deposit => result r (BitField.deposit (← general r) v position length)
  | .depositZero => result r (BitField.deposit 0 v position length)

/-- A load of an immediate value: the low part clears the rest, the others keep it. -/
def loadImmediate (part : ImmediatePart) (r : Register) (v : BitVec 20) : Exec δ Flow := do
  let old ← general r
  let v := v.setWidth 64
  result r <| match part with
    | .low => v
    | .middle => BitField.deposit old v 20 20
    | .upper => BitField.deposit old v 40 20
    | .top => BitField.deposit old v 60 4

/-- Branches, and leaves the address of the following instruction in a register. -/
def branchLinked (ia : BitVec 52) (r : Register) (t : Word) : Exec δ Flow := do
  let flow ← branchTo t
  setGeneral r (following ia)
  return flow

/-- A branch on a bit of a register. -/
def branchBit (ia : BitVec 52) (sense : Bool) (r : Register) (bit : TestedBit)
    (d : BitVec 13) : Exec δ Flow := do
  let position ← match bit with
    | .fixed p => pure p.toNat
    | .shiftAmount => shiftAmount
  if (← general r).getLsbD position == sense then branchTo (relative ia d) else return .next

/-- A branch into a table of instructions, to its last entry if the index is past it. -/
def branchTable (ia : BitVec 52) (b : Register) (limit : BitVec 14) : Exec δ Flow := do
  let index := min (← general b).toNat limit.toNat
  branchTo (following ia + BitVec.ofNat 64 (4 * index))

/-- The rights stand above the protection id in register R. -/
def tlbInsert (r b a : Register) : Exec δ Flow := do
  let v ← general r
  let virtualAddress ← general b
  let physicalAddress ← general a
  let rights : Rights := v.extractLsb' 32 8
  let protectionId : BitVec 32 := v.extractLsb' 0 32
  let (slot, tlb) := (← machine).tlb.insert
    ⟨virtualAddress.page, physicalAddress.page, rights, protectionId⟩
  mapMachine fun m => { m with tlb := tlb }
  emit [.tlbInserted slot virtualAddress physicalAddress rights protectionId]
  return .next

/-- A mapping leaves the TLB; that there was none is only reported. -/
def tlbPurge (b : Register) : Exec δ Flow := do
  let a ← general b
  let (found, tlb) := (← machine).tlb.purge a
  mapMachine fun m => { m with tlb := tlb }
  unless found do emit [.tlbPurgeMissed a]
  return .next

/-- Leaves the old status bits in a register. -/
def modifyStatus (on : Bool) (r : Register) (modes : BitVec 3) : Exec δ Flow := do
  let old ← status
  setGeneral r (old.status.setWidth 64)
  mapRegisters fun s => { s with status := old.withModes modes on }
  return .next

/-- Counts a completed instruction for its group. -/
def countGroup (word : InstructionWord) : Exec δ Unit :=
  count fun c =>
    match word.group.toNat with
    | 0 => { c with arithmetic := c.arithmetic + 1 }
    | 1 => { c with memory := c.memory + 1 }
    | 2 => { c with branch := c.branch + 1 }
    | _ => { c with system := c.system + 1 }

variable [Device δ]

/-- The operand is previewed, and read only when the result stands. -/
def memoryBinary (word : InstructionWord) (op : BinaryOp) (w : Width) (r : Register)
    (x : MemoryOperand) (m : Modifiers) : Exec δ Flow := do
  let a ← operandAddress x
  let old ← general r
  let (p, v) ← previewLoad a w true
  match op.apply old v m (← status).checksOverflow with
  | none => throw (word.trap .overflow)
  | some v =>
    commitLoad p w
    result r v

/-- A comparison with memory: the value is compared before it is consumed. -/
def memoryCompare (c : Condition) (w : Width) (r : Register) (x : MemoryOperand) :
    Exec δ Flow := do
  let a ← operandAddress x
  let old ← general r
  let (p, v) ← previewLoad a w true
  commitLoad p w
  result r (flag (c.holds old v))

/-- A load that reserves what it reads. -/
def loadReserve (w : Width) (r : Register) (x : MemoryOperand) : Exec δ Flow := do
  let (p, v) ← loadPlaced (← operandAddress x) w false
  mapRegisters (·.reserve ⟨p, w.bytes, v⟩)
  result r v

/-- Stores only if the outstanding reservation is at the same physical address, and uses it up
either way. -/
def storeConditional (w : Width) (r : Register) (x : MemoryOperand) : Exec δ Flow := do
  let a ← operandAddress x
  let v ← general r
  let p ← translate a w .write
  let reservation := (← registers).reservation
  mapRegisters (·.dropReservation)
  if reservation.any (·.address == p) then
    storePlaced p w v
    result r 1
  else
    count fun c => { c with conditionalFailures := c.conditionalFailures + 1 }
    result r 0

/-- What each instruction does. -/
def perform (word : InstructionWord) (ia : BitVec 52) : Instruction → Exec δ Flow
  | .nop | .cacheFlush _ | .cachePurge _ | .diagnose _ => return .next
  | .binary op r b x m => do
    let v := op.apply (← general b) (← operand x) m (← status).checksOverflow
    checkedResult word r v
  | .compare c r b x => do result r (flag (c.holds (← general b) (← operand x)))
  | .bitField op r b position last => bitField op r b position.toNat (last.toNat + 1)
  | .doubleShift r b a => do
    result r (BitField.doubleShiftRight (← general b) (← general a) (← shiftAmount))
  | .shiftAdd left distance r b a => do
    let v := Word.shiftAdd (← general b) left distance.bits (← general a)
      (← status).checksOverflow
    checkedResult word r v
  | .loadImmediate part r v => loadImmediate part r v
  | .loadOffset r b v => do result r ((← general b) + v.signExtend 64)
  | .memoryBinary op w r x m => memoryBinary word op w r x m
  | .memoryCompare c w r x => memoryCompare c w r x
  | .load signed w r x => do result r (← load (← operandAddress x) w signed)
  | .store w r x => do
    store (← operandAddress x) w (← general r)
    return .next
  | .loadReserve w r x => loadReserve w r x
  | .storeConditional w r x => storeConditional w r x
  | .branch r d => branchLinked ia r (relative ia d)
  | .branchRegister r b => do branchLinked ia r (← general b)
  | .branchIndexed r b a => do branchLinked ia r ((← general b) + (← general a) * 4)
  | .branchBit sense r bit d => branchBit ia sense r bit d
  | .branchCompare c r b d => do
    if c.holds (← general r) (← general b) then branchTo (relative ia d) else return .next
  | .branchTable b limit => branchTable ia b limit
  | .moveFromControl r c => do result r ((← registers).controlCell c)
  | .moveToControl r c => do
    let v ← general r
    mapRegisters (·.setControlCell c v)
    return .next
  | .physicalAddress r b => do result r (← resolve (← general b))
  | .probe kind r b => do
    match kind with
    | none => throw (word.trap .illegalInstruction)
    | some k =>
      let m ← machine
      result r (flag (m.tlb.probe (← general b) k m.accessContext))
  | .tlbInsert r b a => tlbInsert r b a
  | .tlbPurge b => tlbPurge b
  | .tlbReset => do
    mapMachine fun m => { m with tlb := m.tlb.reset }
    return .next
  | .modifyStatus on r modes => modifyStatus on r modes
  | .returnFromTrap => return .restore (.ofWord (← control .trapStatus))
  | .trap r n => do throw (.software (n.setWidth 32) ((← general r).extractLsb' 0 32))
  | .halt => return .halt

/-- An instruction is run if its word holds one and the program may run it. -/
def execute (word : InstructionWord) (ia : BitVec 52) : Exec δ Flow := do
  if word.isPrivileged && !(← status).privileged then
    throw (word.trap .privilegeViolation)
  match Instruction.ofWord? word with
  | none => throw (word.trap .illegalInstruction)
  | some i =>
    if i.isLegal then perform word ia i else throw (word.trap .illegalInstruction)

/-- An instruction is fetched, run and counted. -/
def instructionAt (ia : BitVec 52) : Exec δ Flow := do
  let word ← fetch (ia.setWidth 64)
  mapRegisters fun s => { s with instruction := word }
  let flow ← execute word ia
  countGroup word
  return flow

end Exec

end Processor64
