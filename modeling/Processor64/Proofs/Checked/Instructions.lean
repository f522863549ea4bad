import Processor64.Proofs.Checked.Accesses
import Processor64.Proofs.Checked.Decoding
import Processor64.Proofs.Legality

/-!
# Instructions, step by step

The instructions executed from the numbers in the fields of their words, with every number of a
register, every shift and every sum checked (`Checked.execute`). Each family does what its
instructions do (`Exec.attempt`), so the whole does what the execution of the word does
(`Checked.execute_agrees`).
-/

namespace Processor64

variable {δ α : Type}

def Fields.trap (d : Fields) (code : TrapCode) : Trap :=
  ⟨code, d.word, BitVec.ofNat 32 d.group, BitVec.ofNat 32 d.family⟩

theorem InstructionWord.trap_fields (w : InstructionWord) (code : TrapCode) :
    w.fields.trap code = w.trap code := by
  simp [Fields.trap, InstructionWord.trap, InstructionWord.fields]

/-- Performs an instruction that may be executed. -/
def Exec.attempt [Device δ] (word : InstructionWord) (ia : BitVec 52) :
    Option Instruction → Exec δ Flow
  | none => throw (word.trap .illegalInstruction)
  | some i => if i.isLegal then perform word ia i else throw (word.trap .illegalInstruction)

theorem Exec.attempt_of_legal [Device δ] {i : Instruction} (h : i.isLegal = true)
    (word : InstructionWord) (ia : BitVec 52) :
    (attempt word ia (some i) : Exec δ Flow) = perform word ia i := if_pos h

theorem Exec.attempt_of_not_legal [Device δ] {i : Instruction} (h : i.isLegal = false)
    (word : InstructionWord) (ia : BitVec 52) :
    (attempt word ia (some i) : Exec δ Flow) = throw (word.trap .illegalInstruction) :=
  if_neg (by simp [h])

theorem Exec.execute_eq_attempt [Device δ] (word : InstructionWord) (ia : BitVec 52) :
    (execute word ia : Exec δ Flow) = (do
      if word.isPrivileged && !(← status).privileged then
        throw (word.trap .privilegeViolation)
      attempt word ia (Instruction.ofWord? word)) := rfl

open CheckedExec

namespace Checked

variable (d : Fields) (ia : BitVec 52)

/-! ## Operands and results -/

def illegal : CheckedExec δ α := raise (d.trap .illegalInstruction)

def operand : CheckedExec δ Word :=
  if d.qualifier &&& 1 ≠ 0 then return d.imm15 else general d.a

def operandAddress : CheckedExec δ Word := do
  let base ← general d.b
  if d.qualifier &&& 1 ≠ 0 then return base + (← general d.a) else return base + d.imm13

def shiftAmount : CheckedExec δ Nat := return ((← control .shiftAmount) &&& 0x3F).toNat

def result (v : Word) : CheckedExec δ Flow := do
  setGeneral d.r v
  return .next

def checkedResult (v : Option Word) : CheckedExec δ Flow :=
  match v with
  | some v => result d v
  | none => raise (d.trap .overflow)

variable (w : InstructionWord)

theorem illegal_agrees : Agrees (illegal w.fields)
    (throw (w.trap .illegalInstruction) : Exec δ α) := by
  rw [← w.trap_fields]
  exact .raise _

theorem operand_agrees : Agrees (operand w.fields) (Exec.operand w.operand : Exec δ Word) := by
  unfold operand InstructionWord.operand
  by_cases h : w.qualifier[0] = true
  · rw [if_pos ((qualifier_and_one w).mpr h), if_pos h]
    exact .pure _
  · rw [if_neg (fun hq => h ((qualifier_and_one w).mp hq)), if_neg h]
    exact general_agrees w.a

theorem operandAddress_agrees :
    Agrees (operandAddress w.fields) (Exec.operandAddress w.memoryOperand : Exec δ Word) := by
  unfold InstructionWord.memoryOperand
  by_cases h : w.qualifier[0] = true
  · rw [if_pos h]
    refine .bind (general_agrees w.b) fun base => ?_
    rw [if_pos ((qualifier_and_one w).mpr h)]
    exact .bind (general_agrees w.a) fun _ => .pure _
  · rw [if_neg h]
    refine .bind (general_agrees w.b) fun base => ?_
    rw [if_neg (fun hq => h ((qualifier_and_one w).mp hq))]
    exact .pure _

theorem shiftAmount_agrees : Agrees shiftAmount (Exec.shiftAmount : Exec δ Nat) := by
  refine .bind (control_agrees .shiftAmount) fun v => ?_
  have hlow : (v &&& 0x3F).toNat = v.toNat % 64 := by
    rw [BitVec.toNat_and]
    exact Nat.and_two_pow_sub_one_eq_mod _ 6
  rw [hlow]
  exact .pure _

theorem result_agrees (v : Word) : Agrees (result w.fields v) (Exec.result w.r v : Exec δ Flow) :=
  .bind (setGeneral_agrees w.r v) fun _ => .pure _

theorem checkedResult_agrees (v : Option Word) :
    Agrees (checkedResult w.fields v) (Exec.checkedResult w w.r v : Exec δ Flow) := by
  cases v with
  | some v => exact result_agrees w v
  | none =>
    show Agrees (raise (w.fields.trap .overflow)) _
    rw [w.trap_fields]
    exact .raise _

/-! ## Calculations -/

def binary : CheckedExec δ Flow := do
  let op ← operation d.family
  let m := modifiers d.qualifier
  if op.accepts m then
    let v := op.apply (← general d.b) (← operand d) m (← run Exec.status).checksOverflow
    checkedResult d v
  else illegal d

def compare : CheckedExec δ Flow := do
  let c := compareCondition (d.qualifier >>> 1)
  result d (Exec.flag (c.holds (← general d.b) (← operand d)))

def bitField : CheckedExec δ Flow := do
  if d.qualifier = 4 then
    result d (← doubleShiftRight (← general d.b) (← general d.a) (← shiftAmount))
  else
    let (position, length) ← fieldBounds d.imm13
    if ← isValid position length then
      let v ← general d.b
      match d.qualifier with
      | 0 => result d (← extract v position length false)
      | 1 => result d (← extract v position length true)
      | 2 => result d (← deposit (← general d.r) v position length)
      | 3 => result d (← deposit 0 v position length)
      | _ => illegal d
    else illegal d

def shiftAndAdd : CheckedExec δ Flow := do
  match ← shiftDistance? d.qualifier with
  | some (amount, left) =>
    let v ← shiftAdd (← general d.b) amount left (← general d.a)
      (← run Exec.status).checksOverflow
    checkedResult d v
  | none => illegal d

def loadImmediate : CheckedExec δ Flow := do
  let old ← general d.r
  match d.qualifier >>> 1 with
  | 0 => result d d.imm20
  | 1 => result d (← deposit old d.imm20 20 20)
  | 2 => result d (← deposit old d.imm20 40 20)
  | _ => result d (← deposit old d.imm20 60 4)

/-- The arithmetic group, by family. -/
def arithmetic : CheckedExec δ Flow :=
  match d.family with
  | 0 => return .next
  | 1 | 2 | 3 | 4 | 5 => binary d
  | 6 => compare d
  | 7 => bitField d
  | 8 => shiftAndAdd d
  | 9 => loadImmediate d
  | 10 => do result d ((← general d.b) + d.imm15)
  | _ => illegal d

section

variable [Device δ] {w}

/-- A checked calculation meets no failure and agrees. -/
theorem binary_agrees {op : BinaryOp} {n : Nat} (hf : w.fields.family = n)
    (hop : operation n = .ok op) : Agrees (binary w.fields) (Exec.attempt w ia
      (some (.binary op w.r w.b w.operand w.modifiers)) : Exec δ Flow) := by
  subst hf
  refine .check hop ?_
  rw [modifiers_eq]
  exact .ite Iff.rfl
    (fun _ => .bind (general_agrees w.b) fun _ => .bind (operand_agrees w) fun _ =>
      .bind status_agrees fun _ => checkedResult_agrees w _)
    (illegal_agrees w)

theorem compare_agrees : Agrees (compare w.fields) (Exec.attempt w ia
    (some (.compare w.compareCondition w.r w.b w.operand)) : Exec δ Flow) := by
  unfold compare
  rw [compareCondition_eq]
  exact .bind (general_agrees w.b) fun _ => .bind (operand_agrees w) fun _ => result_agrees w _

theorem loadImmediate_agrees : Agrees (loadImmediate w.fields) (Exec.attempt w ia
    (some (.loadImmediate w.immediatePart w.r w.imm20)) : Exec δ Flow) := by
  refine .bind (general_agrees w.r) fun old => ?_
  have hpart : ∀ q : BitVec 3, q.toNat >>> 1 = 2 * q[2].toNat + q[1].toNat := by decide
  have hpart := hpart w.qualifier
  unfold InstructionWord.immediatePart
  show Agrees (match w.qualifier.toNat >>> 1 with
    | 0 => result w.fields w.fields.imm20
    | 1 => do result w.fields (← deposit old w.fields.imm20 20 20)
    | 2 => do result w.fields (← deposit old w.fields.imm20 40 20)
    | _ => do result w.fields (← deposit old w.fields.imm20 60 4)) _
  rw [hpart]
  rcases w.qualifier[2] <;> rcases w.qualifier[1]
  · exact result_agrees w _
  · exact .check (deposit_eq _ _ (by decide)) (result_agrees w _)
  · exact .check (deposit_eq _ _ (by decide)) (result_agrees w _)
  · exact .check (deposit_eq _ _ (by decide)) (result_agrees w _)

/-- A shift of one, two or three bits. -/
theorem shiftAndAdd_agrees_of {left : Bool} {distance : ShiftDistance}
    (h : shiftDistance? w.fields.qualifier = .ok (some (distance.bits, left))) :
    Agrees (shiftAndAdd w.fields) (Exec.attempt w ia
      (some (.shiftAdd left distance w.r w.b w.a)) : Exec δ Flow) := by
  have hlt : distance.bits < 64 := by cases distance <;> decide
  exact .check h <| .bind (general_agrees w.b) fun _ => .bind (general_agrees w.a) fun _ =>
    .bind status_agrees fun _ => .check (shiftAdd_eq _ left _ _ hlt) (checkedResult_agrees w _)

theorem shiftAndAdd_agrees : Agrees (shiftAndAdd w.fields)
    (Exec.attempt w ia (Instruction.ofShiftAddWord? w) : Exec δ Flow) := by
  have hnone (hq : w.fields.qualifier = 3 ∨ 7 ≤ w.fields.qualifier) : Agrees
      (shiftAndAdd w.fields) (throw (w.trap .illegalInstruction) : Exec δ Flow) :=
    .check (shiftDistance?_eq_none hq) (illegal_agrees w)
  unfold Instruction.ofShiftAddWord?
  generalize hq : w.qualifier.toNat = q
  have hq : w.fields.qualifier = q := hq
  match q with
  | 0 | 1 | 2 | 4 | 5 | 6 => exact shiftAndAdd_agrees_of ia (by rw [hq]; rfl)
  | 3 => exact hnone (.inl hq)
  | n + 7 => exact hnone (.inr (by omega))

theorem bitField_agrees : Agrees (bitField w.fields)
    (Exec.attempt w ia (Instruction.ofBitFieldWord? w) : Exec δ Flow) := by
  have hpos := w.fieldPosition.isLt
  have hlen := w.fieldLast.isLt
  unfold bitField Instruction.ofBitFieldWord?
  generalize hq : w.qualifier.toNat = q
  have hq : w.fields.qualifier = q := hq
  rw [hq]
  by_cases h₄ : q = 4
  · subst h₄
    exact .bind (general_agrees w.b) fun _ => .bind (general_agrees w.a) fun _ =>
      .bind shiftAmount_agrees fun _ => .check (doubleShiftRight_eq _ _ _) (result_agrees w _)
  rw [if_neg h₄]
  refine .check (fieldBounds_eq w) <| .check (isValid_eq hpos hlen) ?_
  match q with
  | 0 =>
    exact .ite Iff.rfl (fun h => .bind (general_agrees w.b) fun v => .check (extract_eq v false h)
      (result_agrees w _)) (illegal_agrees w)
  | 1 =>
    exact .ite Iff.rfl (fun h => .bind (general_agrees w.b) fun v => .check (extract_eq v true h)
      (result_agrees w _)) (illegal_agrees w)
  | 2 =>
    exact .ite Iff.rfl (fun _ => .bind (general_agrees w.b) fun v => .bind (general_agrees w.r)
      fun old => .check (deposit_eq old v hpos) (result_agrees w _)) (illegal_agrees w)
  | 3 =>
    exact .ite Iff.rfl (fun _ => .bind (general_agrees w.b) fun v =>
      .check (deposit_eq 0 v hpos) (result_agrees w _)) (illegal_agrees w)
  | 4 => exact absurd rfl h₄
  | n + 5 =>
    have hread : Agrees (general w.b.toNat >>= fun _ => illegal w.fields)
        (Exec.general w.b >>= fun _ => throw (w.trap .illegalInstruction) : Exec δ Flow) :=
      .bind (general_agrees w.b) fun _ => illegal_agrees w
    split
    · exact hread
    · exact illegal_agrees w

theorem arithmetic_agrees : Agrees (arithmetic w.fields)
    (Exec.attempt w ia (Instruction.ofArithmeticWord? w) : Exec δ Flow) := by
  unfold arithmetic Instruction.ofArithmeticWord?
  generalize hf : w.family.toNat = n
  have hf : w.fields.family = n := hf
  rw [hf]
  match n with
  | 0 => exact .pure _
  | 1 | 2 | 3 | 4 | 5 => exact binary_agrees ia hf rfl
  | 6 => exact compare_agrees ia
  | 7 => exact bitField_agrees ia
  | 8 => exact shiftAndAdd_agrees ia
  | 9 => exact loadImmediate_agrees ia
  | 10 => exact .bind (general_agrees w.b) fun _ => result_agrees w _
  | n + 11 => exact illegal_agrees w

end

/-! ## Accesses to memory -/

section

variable [Device δ]

def memoryBinary : CheckedExec δ Flow := do
  let op ← operation d.family
  -- the lowest bit of the qualifier is the kind of the address here
  let m := modifiers (d.qualifier &&& 6)
  if op.accepts m then
    let a ← operandAddress d
    let old ← general d.r
    let (p, v) ← previewLoad a (width d.widthCode) true
    match op.apply old v m (← run Exec.status).checksOverflow with
    | none => raise (d.trap .overflow)
    | some v =>
      commitLoad p (width d.widthCode)
      result d v
  else illegal d

def memoryCompare : CheckedExec δ Flow := do
  let c := compareCondition (d.qualifier >>> 1)
  let a ← operandAddress d
  let old ← general d.r
  let (p, v) ← previewLoad a (width d.widthCode) true
  commitLoad p (width d.widthCode)
  result d (Exec.flag (c.holds old v))

def loadReserve : CheckedExec δ Flow := do
  let w := width d.widthCode
  let (p, v) ← loadPlaced (← operandAddress d) w false
  run (Exec.mapRegisters (·.reserve ⟨p, w.bytes, v⟩))
  result d v

def storeConditional : CheckedExec δ Flow := do
  let w := width d.widthCode
  let a ← operandAddress d
  let v ← general d.r
  let p ← translate a w .write
  let reservation := (← run Exec.registers).reservation
  run (Exec.mapRegisters (·.dropReservation))
  if reservation.any (·.address == p) then
    storePlaced p w v
    result d 1
  else
    run (Exec.count fun c => { c with conditionalFailures := c.conditionalFailures + 1 })
    result d 0

/-- The memory group, by family. -/
def memory : CheckedExec δ Flow :=
  match d.family with
  | 1 | 2 | 3 | 4 | 5 => memoryBinary d
  | 6 => memoryCompare d
  | 8 => do
    result d (← load (← operandAddress d) (width d.widthCode) (d.qualifier &&& 2 ≠ 0))
  | 9 => do
    store (← operandAddress d) (width d.widthCode) (← general d.r)
    return .next
  | 10 => loadReserve d
  | 11 => storeConditional d
  | _ => illegal d

variable {w}

theorem memoryBinary_agrees {op : BinaryOp} {n : Nat} (hf : w.fields.family = n)
    (hop : operation n = .ok op) : Agrees (memoryBinary w.fields) (Exec.attempt w ia
      (some (.memoryBinary op w.width w.r w.memoryOperand w.modifiers)) : Exec δ Flow) := by
  subst hf
  refine .check hop ?_
  rw [modifiers_and_six, width_eq]
  refine .ite Iff.rfl (fun _ => ?_) (illegal_agrees w)
  refine .bind (operandAddress_agrees w) fun a => .bind (general_agrees w.r) fun old => ?_
  intro s hs
  refine (previewLoad_agrees a w.width true s hs).bind fun ⟨p, v⟩ s₁ hp hs₁ => ?_
  refine (status_agrees s₁ hs₁).bind fun status s₂ hstatus hs₂ => ?_
  obtain ⟨rfl, rfl⟩ : s₁.machine.registers.status = status ∧ s₁ = s₂ := by
    simpa [Exec.status_apply] using hstatus
  rcases op.apply old v w.modifiers s₁.machine.registers.status.checksOverflow with _ | v'
  · exact ⟨by rw [w.trap_fields]; rfl, hs₁⟩
  · exact (commitLoad_of_previewLoad hp hs₁).bind fun _ s₃ _ hs₃ => result_agrees w v' s₃ hs₃

theorem memoryCompare_agrees : Agrees (memoryCompare w.fields) (Exec.attempt w ia
    (some (.memoryCompare w.compareCondition w.width w.r w.memoryOperand)) : Exec δ Flow) := by
  unfold memoryCompare
  rw [compareCondition_eq, width_eq]
  refine .bind (operandAddress_agrees w) fun a => .bind (general_agrees w.r) fun old => ?_
  intro s hs
  refine (previewLoad_agrees a w.width true s hs).bind fun ⟨p, v⟩ s₁ hp hs₁ => ?_
  exact (commitLoad_of_previewLoad hp hs₁).bind fun _ s₂ _ hs₂ => result_agrees w _ s₂ hs₂

theorem loadReserve_agrees : Agrees (loadReserve w.fields) (Exec.attempt w ia
    (some (.loadReserve w.width w.r w.memoryOperand)) : Exec δ Flow) := by
  unfold loadReserve
  rw [width_eq]
  exact .bind (operandAddress_agrees w) fun a => .bind (loadPlaced_agrees a w.width false)
    fun _ => .bind (mapRegisters_agrees _) fun _ => result_agrees w _

theorem storeConditional_agrees : Agrees (storeConditional w.fields) (Exec.attempt w ia
    (some (.storeConditional w.width w.r w.memoryOperand)) : Exec δ Flow) := by
  unfold storeConditional
  rw [width_eq]
  exact .bind (operandAddress_agrees w) fun a => .bind (general_agrees w.r) fun v =>
    .bind (translate_agrees a w.width .write) fun p =>
      .bind (.run Exec.stepwise_keepsShape.registers) fun _ =>
        .bind (mapRegisters_agrees _) fun _ =>
          .ite Iff.rfl (fun _ => .bind (storePlaced_agrees p w.width v) fun _ => result_agrees w 1)
            (.bind (count_agrees _) fun _ => result_agrees w 0)

theorem memory_agrees : Agrees (memory w.fields)
    (Exec.attempt w ia (Instruction.ofMemoryWord? w) : Exec δ Flow) := by
  unfold memory Instruction.ofMemoryWord?
  rw [width_eq, decide_qualifier_and_two]
  generalize hf : w.family.toNat = n
  have hf : w.fields.family = n := hf
  rw [hf]
  match n with
  | 0 | 7 | n + 12 => exact illegal_agrees w
  | 1 | 2 | 3 | 4 | 5 => exact memoryBinary_agrees ia hf rfl
  | 6 => exact memoryCompare_agrees ia
  | 8 =>
    exact .bind (operandAddress_agrees w) fun a => .bind (load_agrees a w.width _) fun v =>
      result_agrees w v
  | 9 =>
    exact .bind (operandAddress_agrees w) fun a => .bind (general_agrees w.r) fun v =>
      .bind (store_agrees a w.width v) fun _ => .pure _
  | 10 => exact loadReserve_agrees ia
  | 11 => exact storeConditional_agrees ia

end

/-! ## Branches -/

def relative (offset : Word) : Word := ia.setWidth 64 + offset * 4

def branchTo (t : Word) : CheckedExec δ Flow := do
  if (← isAligned .word t) && t.extractLsb' 52 12 == 0 then return .branch (t.extractLsb' 0 52)
  else raise (.misaligned t .word)

def branchLinked (t : Word) : CheckedExec δ Flow := do
  let flow ← branchTo t
  setGeneral d.r (Exec.following ia)
  return flow

def branchOnBit (position : Nat) : CheckedExec δ Flow := do
  let tested ← bit (← general d.r) position
  if tested = (if d.qualifier &&& 1 ≠ 0 then 1 else 0) then branchTo (relative ia d.imm13)
  else return .next

def branchBit : CheckedExec δ Flow := do
  if d.qualifier &&& 2 ≠ 0 then branchOnBit d ia (← shiftAmount)
  else branchOnBit d ia d.bitPosition

def branchTable : CheckedExec δ Flow := do
  let index := min (← general d.b).toNat (d.imm15 &&& 0x3FFF).toNat
  let distance ← product 64 index 4
  branchTo (Exec.following ia + BitVec.ofNat 64 distance)

/-- The branch group, by family. -/
def branch : CheckedExec δ Flow :=
  match d.family with
  | 1 => branchLinked d ia (relative ia d.imm19)
  | 2 => do branchLinked d ia (← general d.b)
  | 3 => do branchLinked d ia ((← general d.b) + (← general d.a) * 4)
  | 4 => branchBit d ia
  | 5 => do
    let c := branchCondition d.qualifier
    if c.holds (← general d.r) (← general d.b) then branchTo (relative ia d.imm15)
    else return .next
  | 6 => branchTable d ia
  | _ => illegal d

section

variable {w}

theorem branchTo_agrees (t : Word) : Agrees (branchTo t) (Exec.branchTo t : Exec δ Flow) :=
  .check (isAligned_eq .word t) <| .ite Iff.rfl (fun _ => .pure _) (.raise _)

theorem branchLinked_agrees (t : Word) :
    Agrees (branchLinked w.fields ia t) (Exec.branchLinked ia w.r t : Exec δ Flow) :=
  .bind (branchTo_agrees t) fun _ => .bind (setGeneral_agrees w.r _) fun _ => .pure _

theorem branchOnBit_agrees {position : Nat} (h : position < 64) :
    Agrees (branchOnBit w.fields ia position) (do
      if (← Exec.general w.r).getLsbD position == w.qualifier[0] then
        Exec.branchTo (Exec.relative ia w.imm13)
      else return .next : Exec δ Flow) := by
  refine .bind (general_agrees w.r) fun v => .check (bit_eq v h) ?_
  refine .ite ?_ (fun _ => branchTo_agrees _) (.pure _)
  have hflag : ∀ x q : Bool, ((if x then 1 else 0 : Word) = if q then 1 else 0) ↔ (x == q) := by
    decide
  simp only [qualifier_and_one]
  exact hflag _ _

theorem branchBit_agrees [Device δ] : Agrees (branchBit w.fields ia) (Exec.attempt w ia
    (some (.branchBit (w.qualifier.getLsbD 0) w.r w.testedBit w.imm13)) : Exec δ Flow) := by
  unfold branchBit InstructionWord.testedBit
  by_cases h : w.qualifier[1] = true
  · rw [if_pos ((qualifier_and_two w).mpr h), if_pos h]
    intro s hs
    refine (shiftAmount_agrees s hs).bind fun n s' hn hs' => ?_
    have hlt : n < 64 := by
      obtain ⟨v, _, -, hv⟩ := Exec.bind_eq_ok.mp hn
      obtain ⟨rfl, -⟩ := EStateM.Result.ok.inj hv
      exact Nat.mod_lt _ (by decide)
    exact branchOnBit_agrees ia hlt s' hs'
  · rw [if_neg (fun hq => h ((qualifier_and_two w).mp hq)), if_neg h]
    exact branchOnBit_agrees ia w.bitPosition.isLt

theorem branchTable_agrees [Device δ] : Agrees (branchTable w.fields ia) (Exec.attempt w ia
    (some (.branchTable w.b (w.imm15.extractLsb' 0 14))) : Exec δ Flow) := by
  refine .bind (general_agrees w.b) fun v => ?_
  have hlt := (w.imm15.extractLsb' 0 14).isLt
  rw [imm15_and]
  refine .check (product_of_lt (by omega)) ?_
  rw [Nat.mul_comm]
  exact branchTo_agrees _

theorem branch_agrees [Device δ] : Agrees (branch w.fields ia)
    (Exec.attempt w ia (Instruction.ofBranchWord? w) : Exec δ Flow) := by
  unfold branch Instruction.ofBranchWord?
  rw [branchCondition_eq]
  generalize hf : w.family.toNat = n
  have hf : w.fields.family = n := hf
  rw [hf]
  match n with
  | 1 => exact branchLinked_agrees ia _
  | 2 => exact .bind (general_agrees w.b) fun _ => branchLinked_agrees ia _
  | 3 =>
    exact .bind (general_agrees w.b) fun _ => .bind (general_agrees w.a) fun _ =>
      branchLinked_agrees ia _
  | 4 => exact branchBit_agrees ia
  | 5 =>
    exact .bind (general_agrees w.r) fun _ => .bind (general_agrees w.b) fun _ =>
      .ite Iff.rfl (fun _ => branchTo_agrees _) (.pure _)
  | 6 => exact branchTable_agrees ia
  | 0 | n + 7 => exact illegal_agrees w

end

/-! ## Control of the system -/

def isPrivileged : Bool :=
  match d.family with
  | 1 => d.qualifier = 1
  | 2 | 4 | 6 | 7 | 15 => true
  | _ => false

def moveControl : CheckedExec δ Flow :=
  match ControlRegister.ofNumber? d.b with
  | none => illegal d
  | some c =>
    match d.qualifier with
    | 0 => do result d (← control c)
    | 1 =>
      if c ≠ .cpuInfo then do
        setControl c (← general d.r)
        return .next
      else illegal d
    | _ => illegal d

def physicalAddress : CheckedExec δ Flow := do result d (← resolve (← general d.b))

def probe : CheckedExec δ Flow :=
  match AccessKind.ofCode? (d.qualifier &&& 3) with
  | some k => do
    let m ← run Exec.machine
    let a ← general d.b
    result d (Exec.flag (← Tlb.Checked.probe m.tlb a k (← accessContext m)))
  | none => illegal d

def tlbInsert : CheckedExec δ Flow := do
  let v ← general d.r
  let virtualAddress ← general d.b
  let physicalAddress ← general d.a
  let rights : Rights := (← signedShiftRight v 32).setWidth 8
  let protectionId : BitVec 32 := v.setWidth 32
  let m ← run Exec.machine
  let (slot, tlb) ← Tlb.Checked.insert m.tlb
    ⟨virtualAddress.page, physicalAddress.page, rights, protectionId⟩
  run (Exec.mapMachine fun m => { m with tlb := tlb })
  run (Exec.emit [.tlbInserted slot virtualAddress physicalAddress rights protectionId])
  return .next

def tlbPurge : CheckedExec δ Flow := do
  let a ← general d.b
  let m ← run Exec.machine
  let (found, tlb) ← Tlb.Checked.purge m.tlb a
  run (Exec.mapMachine fun m => { m with tlb := tlb })
  unless found do run (Exec.emit [.tlbPurgeMissed a])
  return .next

def tlbReset : CheckedExec δ Flow := do
  run (Exec.mapMachine fun m => { m with tlb := m.tlb.reset })
  return .next

def modifyStatus (on : Bool) : CheckedExec δ Flow := do
  let old ← run Exec.status
  setGeneral d.r (old.status.setWidth 64)
  let modes := d.imm13.extractLsb' 0 3
  run (Exec.mapRegisters fun s => { s with status := old.withModes modes on })
  return .next

def softwareTrap : CheckedExec δ Flow := do
  let v ← general d.r
  raise (.software (d.word &&& 0x1FFF) (v.setWidth 32))

def systemOperation : CheckedExec δ Flow :=
  match d.family, d.qualifier with
  | 1, _ => moveControl d
  | 2, _ => physicalAddress d
  | 3, _ => probe d
  | 4, 0 => tlbInsert d
  | 4, 1 => tlbPurge d
  | 4, 2 => tlbReset
  | 5, 0 | 5, 1 => return .next
  | 6, 0 => modifyStatus d true
  | 6, 1 => modifyStatus d false
  | 7, _ => do return .restore (.ofWord (← control .trapStatus))
  | 14, _ => softwareTrap d
  | 15, 7 => return .halt
  | 15, _ => return .next
  | _, _ => illegal d

/-- The system group: the privilege is checked first. -/
def system : CheckedExec δ Flow := do
  if isPrivileged d && !(← run Exec.status).privileged then raise (d.trap .privilegeViolation)
  systemOperation d

section

variable {w}

theorem moveControl_illegal (hq : 2 ≤ w.fields.qualifier) : Agrees (moveControl w.fields)
    (throw (w.trap .illegalInstruction) : Exec δ Flow) := by
  unfold moveControl
  split
  · exact illegal_agrees w
  · split
    · omega
    · omega
    · exact illegal_agrees w

variable [Device δ]

theorem isPrivileged_eq (h : w.group = 3) : isPrivileged w.fields = w.isPrivileged := by
  have hone : ∀ q : BitVec 3, decide (q.toNat = 1) = (q == 1) := by decide
  have hqualifier : decide (w.fields.qualifier = 1) = (w.qualifier == 1) := hone _
  rw [isPrivileged, hqualifier, InstructionWord.isPrivileged, h]
  rfl

theorem moveFromControl_agrees (hq : w.fields.qualifier = 0) : Agrees (moveControl w.fields)
    (Exec.attempt w ia (some (.moveFromControl w.r w.b)) : Exec δ Flow) := by
  unfold moveControl
  rcases hc : ControlRegister.ofNumber? w.b.toNat with _ | c
  · rw [Exec.attempt_of_not_legal (by simp [Instruction.isLegal, hc]),
      show ControlRegister.ofNumber? w.fields.b = none from hc]
    exact illegal_agrees w
  · rw [Exec.attempt_of_legal (by simp [Instruction.isLegal, hc]),
      show ControlRegister.ofNumber? w.fields.b = some c from hc, hq,
      ← ControlRegister.number_of_ofNumber? hc]
    exact .bind (control_agrees c) fun _ => result_agrees w _

theorem moveToControl_agrees (hq : w.fields.qualifier = 1) : Agrees (moveControl w.fields)
    (Exec.attempt w ia (some (.moveToControl w.r w.b)) : Exec δ Flow) := by
  unfold moveControl
  rcases hc : ControlRegister.ofNumber? w.b.toNat with _ | c
  · rw [Exec.attempt_of_not_legal (by simp [Instruction.isLegal, hc]),
      show ControlRegister.ofNumber? w.fields.b = none from hc]
    exact illegal_agrees w
  · rw [show ControlRegister.ofNumber? w.fields.b = some c from hc, hq]
    refine .ite (by simp [Instruction.isLegal, hc]) (fun _ => ?_) (illegal_agrees w)
    rw [← ControlRegister.number_of_ofNumber? hc]
    exact .bind (general_agrees w.r) fun v => .bind (setControl_agrees c v) fun _ => .pure _

theorem physicalAddress_agrees : Agrees (physicalAddress w.fields) (Exec.attempt w ia
    (some (.physicalAddress w.r w.b)) : Exec δ Flow) :=
  .bind (general_agrees w.b) fun a => .bind (resolve_agrees a) fun _ => result_agrees w _

theorem probe_agrees : Agrees (probe w.fields) (Exec.attempt w ia
    (some (.probe (AccessKind.ofCode? (w.qualifier.toNat % 4)) w.r w.b)) : Exec δ Flow) := by
  have hlow : w.fields.qualifier &&& 3 = w.qualifier.toNat % 4 :=
    Nat.and_two_pow_sub_one_eq_mod _ 2
  unfold probe
  rw [hlow]
  rcases AccessKind.ofCode? (w.qualifier.toNat % 4) with _ | k
  · exact illegal_agrees w
  · exact .bind_machine fun m _ => .bind (general_agrees w.b) fun a =>
      .check (accessContext_eq m) <| .check (Tlb.Checked.probe_eq k _) (result_agrees w _)

theorem tlbInsert_agrees : Agrees (tlbInsert w.fields) (Exec.attempt w ia
    (some (.tlbInsert w.r w.b w.a)) : Exec δ Flow) := by
  refine .bind (general_agrees w.r) fun v => .bind (general_agrees w.b) fun x =>
    .bind (general_agrees w.a) fun y => .check (signedShiftRight_of_lt (by decide)) ?_
  have hrights : (v.sshiftRight 32).setWidth 8 = v.extractLsb' 32 8 := by
    ext i hi
    rw [BitVec.getElem_setWidth, BitVec.getElem_extractLsb', BitVec.getLsbD_sshiftRight]
    simp [show 32 + i < 64 by omega, show i < 64 by omega]
  have hid : v.setWidth 32 = v.extractLsb' 0 32 := by
    ext i hi
    simp
  rw [hrights, hid]
  refine .bind_machine fun m hm => .check (Tlb.Checked.insert_eq hm.slots _) ?_
  exact .bind (mapTlb_agrees hm (m.tlb.capacity_insert _)) fun _ =>
    .bind (.run (Exec.stepwise_keepsShape.emit _)) fun _ => .pure _

theorem tlbPurge_agrees : Agrees (tlbPurge w.fields) (Exec.attempt w ia
    (some (.tlbPurge w.b)) : Exec δ Flow) := by
  refine .bind (general_agrees w.b) fun a => .bind_machine fun m hm =>
    .check Tlb.Checked.purge_eq <| .bind (mapTlb_agrees hm (m.tlb.capacity_purge a)) fun _ => ?_
  exact .ite Iff.rfl (fun _ => .pure _)
    (.bind (.run (Exec.stepwise_keepsShape.emit _)) fun _ => .pure _)

theorem modifyStatus_agrees (on : Bool) : Agrees (modifyStatus w.fields on) (Exec.attempt w ia
    (some (.modifyStatus on w.r (w.imm13.extractLsb' 0 3))) : Exec δ Flow) := by
  unfold modifyStatus
  rw [show w.fields.imm13.extractLsb' 0 3 = w.imm13.extractLsb' 0 3 from
    extractLsb'_signExtend w.imm13 (by decide) (by decide)]
  exact .bind status_agrees fun _ => .bind (setGeneral_agrees w.r _) fun _ =>
    .bind (mapRegisters_agrees _) fun _ => .pure _

theorem softwareTrap_agrees : Agrees (softwareTrap w.fields) (Exec.attempt w ia
    (some (.trap w.r w.imm13)) : Exec δ Flow) := by
  refine .bind (general_agrees w.r) fun v => ?_
  have hnumber : w &&& 0x1FFF = w.imm13.setWidth 32 := by
    apply BitVec.eq_of_toNat_eq
    rw [BitVec.toNat_setWidth, Nat.mod_eq_of_lt (Nat.lt_trans w.imm13.isLt (by decide))]
    exact toNat_and_low w 0 13
  have hvalue : v.setWidth 32 = v.extractLsb' 0 32 := by
    ext i hi
    simp
  rw [show w.fields.word &&& 0x1FFF = w.imm13.setWidth 32 from hnumber, hvalue]
  exact .raise _

theorem tlbReset_agrees :
    Agrees tlbReset (Exec.attempt w ia (some .tlbReset) : Exec δ Flow) :=
  .bind (.run Exec.stepwise_keepsShape.tlbReset) fun _ => .pure _

theorem systemOperation_agrees : Agrees (systemOperation w.fields)
    (Exec.attempt w ia (Instruction.ofSystemWord? w) : Exec δ Flow) := by
  unfold systemOperation Instruction.ofSystemWord?
  generalize hf : w.family.toNat = n
  have hf : w.fields.family = n := hf
  generalize hq : w.qualifier.toNat = q
  have hq : w.fields.qualifier = q := hq
  rw [hf, hq]
  match n, q with
  | 1, 0 => exact moveFromControl_agrees ia hq
  | 1, 1 => exact moveToControl_agrees ia hq
  | 1, k + 2 => exact moveControl_illegal (by omega)
  | 2, _ => exact physicalAddress_agrees ia
  | 3, q => exact hq ▸ probe_agrees ia
  | 4, 0 => exact tlbInsert_agrees ia
  | 4, 1 => exact tlbPurge_agrees ia
  | 4, 2 => exact tlbReset_agrees ia
  | 5, 0 | 5, 1 => exact .pure _
  | 6, 0 => exact modifyStatus_agrees ia true
  | 6, 1 => exact modifyStatus_agrees ia false
  | 7, _ => exact .bind (control_agrees .trapStatus) fun _ => .pure _
  | 14, _ => exact softwareTrap_agrees ia
  | 15, 7 => exact .pure _
  | 15, 0 | 15, 1 | 15, 2 | 15, 3 | 15, 4 | 15, 5 | 15, 6 | 15, k + 8 => exact .pure _
  | 0, _ | 4, k + 3 | 5, k + 2 | 6, k + 2 | 8, _ | 9, _ | 10, _ | 11, _ | 12, _ | 13, _ =>
    exact illegal_agrees w
  | k + 16, _ => exact illegal_agrees w

/-- The checked system group agrees, word by word. -/
theorem system_agrees (h : w.group = 3) : Agrees (system w.fields) (do
    if w.isPrivileged && !(← Exec.status).privileged then throw (w.trap .privilegeViolation)
    Exec.attempt w ia (Instruction.ofSystemWord? w) : Exec δ Flow) := by
  unfold system
  rw [isPrivileged_eq h, w.trap_fields]
  exact .bind status_agrees fun status => .ite Iff.rfl
    (fun _ => .bind (.raise _) fun _ => systemOperation_agrees ia) (systemOperation_agrees ia)

end

/-! ## All instructions -/

variable [Device δ]

def execute : CheckedExec δ Flow := do
  let d ← fields w
  match d.group with
  | 0 => arithmetic d
  | 1 => memory d
  | 2 => branch d ia
  | _ => system d

def instructionAt : CheckedExec δ Flow := do
  let word ← fetch (ia.setWidth 64)
  run (Exec.mapRegisters fun s => { s with instruction := word })
  let flow ← execute ia word
  run (Exec.countGroup word)
  return flow

theorem execute_of_group_ne {c : CheckedExec δ Flow} (hg : w.group ≠ 3)
    (hc : Agrees c (Exec.attempt w ia (Instruction.ofWord? w))) :
    Agrees c (Exec.execute w ia) := by
  have hp : w.isPrivileged = false := by
    rw [InstructionWord.isPrivileged, beq_eq_false_iff_ne.mpr hg, Bool.false_and]
  rw [Exec.execute_eq_attempt, hp]
  exact hc

/-- Whatever the word, its checked execution is its execution. -/
theorem execute_agrees : Agrees (execute ia w) (Exec.execute w ia : Exec δ Flow) := by
  refine .check (fields_eq w) ?_
  have hfield : w.fields.group = w.group.toNat := rfl
  rcases w.group_cases with hg | hg | hg | hg <;> rw [hg] at hfield <;> rw [hfield]
  · refine execute_of_group_ne ia w (by rw [hg]; decide) ?_
    rw [Instruction.ofWord?, hg]
    exact arithmetic_agrees ia
  · refine execute_of_group_ne ia w (by rw [hg]; decide) ?_
    rw [Instruction.ofWord?, hg]
    exact memory_agrees ia
  · refine execute_of_group_ne ia w (by rw [hg]; decide) ?_
    rw [Instruction.ofWord?, hg]
    exact branch_agrees ia
  · rw [Exec.execute_eq_attempt, Instruction.ofWord?, hg]
    exact system_agrees ia hg

/-- A checked instruction meets no failure and agrees. -/
theorem instructionAt_agrees : Agrees (instructionAt ia) (Exec.instructionAt ia : Exec δ Flow) :=
  .bind (fetch_agrees _) fun word => .bind (mapRegisters_agrees _) fun _ =>
    .bind (execute_agrees ia word) fun _ => .bind (count_agrees _) fun _ => .pure _

end Checked

end Processor64
