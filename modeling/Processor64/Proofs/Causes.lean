import Processor64.Proofs.Decision
import Processor64.Proofs.Ending

/-!
# What traps are about

An instruction that may be executed traps only with the codes of what it does (`Instruction.codes`,
`perform_trapsWith`): an access about its address or mapping, a sum about its result, a branch about
its target, and a trap instruction with the trap that it asks for. All of these are about what the
instruction finds. Traps about a word are raised before its instruction begins
(`instructionAt_error_code`), and no trap has the code for none (`code_ne_noTrap`).
-/

namespace Processor64

variable {δ α β : Type}

/-- The codes of the traps of an access. -/
def TrapCode.ofAccess : List TrapCode :=
  [alignment, physicalMemoryAddress, ioMemoryAddress, protection, tlbAccess]

/-- Sums and differences may overflow. -/
def BinaryOp.codes : BinaryOp → List TrapCode
  | add | subtract => [.overflow]
  | and | or | xor => []

/-- The codes of the traps that an instruction may raise when it is executed. -/
def Instruction.codes : Instruction → List TrapCode
  | binary op .. => op.codes
  | shiftAdd .. => [.overflow]
  | memoryBinary op .. => op.codes ++ TrapCode.ofAccess
  | memoryCompare .. | load .. | store .. | loadReserve .. | storeConditional .. =>
    TrapCode.ofAccess
  | branch .. | branchRegister .. | branchIndexed .. | branchBit .. | branchCompare ..
  | branchTable .. => [.alignment]
  | physicalAddress .. => [.tlbAccess]
  | trap .. => [.software]
  | nop | compare .. | bitField .. | doubleShift .. | loadImmediate .. | loadOffset ..
  | moveFromControl .. | moveToControl .. | probe .. | tlbInsert .. | tlbPurge _ | tlbReset
  | cacheFlush _ | cachePurge _ | modifyStatus .. | returnFromTrap | halt | diagnose _ => []

/-- The causes of an instruction are causes of operands. -/
theorem Instruction.codes_subset (i : Instruction) : i.codes ⊆ TrapCode.ofOperands := by
  cases i
  case binary op _ _ _ _ | memoryBinary op _ _ _ _ =>
    cases op <;> simp [codes, BinaryOp.codes, TrapCode.ofAccess, TrapCode.ofOperands]
  all_goals simp [codes, TrapCode.ofAccess, TrapCode.ofOperands]

/-- Only an operation that may overflow has no result. -/
theorem BinaryOp.overflow_mem_codes {op : BinaryOp} {a b : Word} {m : Modifiers} {checked : Bool}
    (h : op.apply a b m checked = none) : .overflow ∈ op.codes := by
  cases op
  case add | subtract => exact List.mem_singleton.mpr rfl
  all_goals cases h

/-- A refused access traps with a cause of accesses. -/
theorem Refusal.code_mem (r : Refusal) (w : Width) (k : AccessKind) :
    (r.trap w k).code ∈ TrapCode.ofAccess := by
  cases r <;> simp [trap, Trap.misaligned, Trap.unmapped, Trap.denied, Trap.unclaimedIo,
    Trap.outsidePhysical, Trap.atAddress, TrapCode.ofAccess]

/-- Where an access is decided, what it traps with is a cause of accesses. -/
theorem Decides.code_mem {d : Except Refusal Word} {w : Width} {k : AccessKind}
    {x : Except Trap α} (h : Decides d w k x) {t : Trap} (hx : x = .error t) :
    t.code ∈ TrapCode.ofAccess := by
  subst hx
  cases d with
  | error r =>
    obtain rfl := Except.error.inj h
    exact r.code_mem w k
  | ok _ =>
    obtain ⟨_, h⟩ := h
    cases h

namespace Exec

/-- Every trap of the computation has one of the codes. -/
structure TrapsWith (codes : List TrapCode) (x : Exec δ α) : Prop where
  code_mem : ∀ {s t s'}, x s = .error t s' → t.code ∈ codes

/-- Every trap of the computation is about what it finds. -/
structure TrapsOnOperands (x : Exec δ α) : Prop where
  code_mem : ∀ {s t s'}, x s = .error t s' → t.code ∈ TrapCode.ofOperands

namespace TrapsWith

variable {codes codes' : List TrapCode}

theorem mono {x : Exec δ α} (hx : TrapsWith codes x) (h : codes ⊆ codes') :
    TrapsWith codes' x where
  code_mem he := h (hx.code_mem he)

theorem onOperands {x : Exec δ α} (hx : TrapsWith codes x) (h : codes ⊆ TrapCode.ofOperands) :
    TrapsOnOperands x where
  code_mem he := h (hx.code_mem he)

theorem bind {x : Exec δ α} {f : α → Exec δ β} (hx : TrapsWith codes x)
    (hf : ∀ a, TrapsWith codes (f a)) : TrapsWith codes (x >>= f) where
  code_mem h := by
    rcases bind_eq_error.mp h with h | ⟨a, s₁, -, h⟩
    · exact hx.code_mem h
    · exact (hf a).code_mem h

/-- A computation that always answers has no traps. -/
theorem of_apply {x : Exec δ α} {f : Session δ → α} {g : Session δ → Session δ}
    (h : ∀ s, x s = .ok (f s) (g s)) : TrapsWith codes x where
  code_mem hx := by
    rw [h] at hx
    cases hx

theorem throw {t : Trap} (h : t.code ∈ codes) : TrapsWith codes (throw t : Exec δ α) where
  code_mem := by
    rintro s _ s' ⟨⟩
    exact h

theorem ite {c : Prop} [Decidable c] {x y : Exec δ α} (hx : TrapsWith codes x)
    (hy : TrapsWith codes y) : TrapsWith codes (if c then x else y) := by
  split <;> assumption

theorem ofExcept {r : Except Trap α} (h : ∀ t, r = .error t → t.code ∈ codes) :
    TrapsWith codes (ofExcept r : Exec δ α) where
  code_mem hx := h _ (ofExcept_eq_error.mp hx).1

theorem absorb {r : Except Trap (Reply (Memory δ) α)} (h : ∀ t, r = .error t → t.code ∈ codes) :
    TrapsWith codes (absorb r) where
  code_mem hx := h _ (absorb_eq_error.mp hx).1

theorem translate (a : Word) (w : Width) (k : AccessKind) :
    TrapsWith TrapCode.ofAccess (translate a w k : Exec δ Word) where
  code_mem h := by
    have hplace := (translate_eq_error.mp h).1
    rw [Machine.place_fst] at hplace
    split at hplace
    · obtain rfl := Except.error.inj hplace
      exact Refusal.code_mem _ w k
    · cases hplace

/-- A resolution traps only for want of a mapping. -/
theorem resolve (a : Word) : TrapsWith [.tlbAccess] (resolve a : Exec δ Word) := by
  refine .bind (.of_apply fun _ => rfl) fun m => .bind (.of_apply fun _ => rfl) fun _ =>
    .ofExcept fun t h => ?_
  have hr : (m.tlb.resolve a m.accessContext).1 = .error t := h
  rw [Tlb.resolve_fst] at hr
  split at hr
  · cases hr
  · split at hr <;> cases hr
    exact List.mem_singleton.mpr rfl

theorem checkedResult (word : InstructionWord) (r : Register) (v : Option Word)
    (h : v = none → .overflow ∈ codes) :
    TrapsWith codes (checkedResult word r v : Exec δ Flow) := by
  rcases v with _ | v
  · exact throw (h rfl)
  · exact .of_apply fun _ => rfl

theorem branchTo (t : Word) : TrapsWith [.alignment] (branchTo t : Exec δ Flow) :=
  .ite (.of_apply fun _ => rfl) (.throw (List.mem_singleton.mpr rfl))

theorem branchLinked (ia : BitVec 52) (r : Register) (t : Word) :
    TrapsWith [.alignment] (branchLinked ia r t : Exec δ Flow) :=
  .bind (.branchTo t) fun _ => .of_apply fun _ => rfl

section Access

variable [Device δ] (p : Word) (w : Width)

theorem readMemory (signed : Bool) :
    TrapsWith TrapCode.ofAccess (readMemory p w signed : Exec δ Word) :=
  .bind (.of_apply fun _ => rfl) fun m =>
    .absorb fun _ => (m.memory.decides_read p w signed .read).code_mem

theorem previewMemory (signed : Bool) :
    TrapsWith TrapCode.ofAccess (previewMemory p w signed : Exec δ Word) :=
  .bind (.of_apply fun _ => rfl) fun m =>
    .absorb fun _ => (m.memory.decides_preview p w signed .read).code_mem

theorem writeMemory (v : Word) :
    TrapsWith TrapCode.ofAccess (writeMemory p w v : Exec δ Unit) :=
  .bind (.of_apply fun _ => rfl) fun m =>
    .absorb fun _ => (m.memory.decides_write p v w .write).code_mem

theorem loadPlaced (a : Word) (signed : Bool) :
    TrapsWith TrapCode.ofAccess (loadPlaced a w signed : Exec δ (Word × Word)) :=
  .bind (.translate a w .read) fun p => .bind (.readMemory p w signed) fun _ =>
    .of_apply fun _ => rfl

theorem previewLoad (a : Word) (signed : Bool) :
    TrapsWith TrapCode.ofAccess (previewLoad a w signed : Exec δ (Word × Word)) :=
  .bind (.translate a w .read) fun p => .bind (.previewMemory p w signed) fun _ =>
    .of_apply fun _ => rfl

theorem commitLoad : TrapsWith TrapCode.ofAccess (commitLoad p w : Exec δ Unit) where
  code_mem h := by
    simp only [Exec.commitLoad, bind_eq_error, discard_eq_error, count_apply, reduceCtorEq,
      and_false, exists_false, or_false] at h
    exact (readMemory p w false).code_mem h

theorem storePlaced (v : Word) :
    TrapsWith TrapCode.ofAccess (storePlaced p w v : Exec δ Unit) :=
  .bind (.bind (.writeMemory p w v) fun _ => .of_apply fun _ => rfl) fun _ =>
    .of_apply fun _ => rfl

theorem fetch (a : Word) : TrapsWith TrapCode.ofAccess (fetch a : Exec δ (BitVec 32)) :=
  .bind (.translate a .word .execute) fun p => .bind (.readMemory p .word false) fun _ =>
    .of_apply fun _ => rfl

end Access

end TrapsWith

/-! ## Instructions -/

variable [Device δ]

/-- An operation with memory traps for its access, or for an overflow of its result. -/
theorem combine_trapsWith (word : InstructionWord) {o : Combination} {codes : List TrapCode}
    (ha : TrapCode.ofAccess ⊆ codes)
    (ho : ∀ checked a b, o.result? checked a b = none → .overflow ∈ codes) :
    TrapsWith codes (combine word o : Exec δ Flow) := by
  refine .bind (.of_apply fun _ => operandAddress_apply o.operand) fun a =>
    .bind (.of_apply fun _ => rfl) fun old =>
      .bind ((TrapsWith.previewLoad o.width a true).mono ha) fun ⟨p, v⟩ =>
        .bind (.of_apply fun _ => rfl) fun status => ?_
  rcases hv : o.result? status.checksOverflow old v with _ | v'
  · exact .throw (ho _ _ _ hv)
  · exact .bind ((TrapsWith.commitLoad p o.width).mono ha) fun _ => .of_apply fun _ => rfl

theorem access_trapsWith (word : InstructionWord) (ia : BitVec 52) {i : Instruction}
    (hi : i.isAccess = true) : TrapsWith i.codes (perform word ia i : Exec δ Flow) := by
  cases i <;> cases hi
  case memoryBinary op w r x m =>
    rw [perform_combination (i := .memoryBinary op w r x m) rfl]
    exact combine_trapsWith word (List.subset_append_right _ _) fun _ _ _ h =>
      List.mem_append_left _ (BinaryOp.overflow_mem_codes h)
  case memoryCompare c w r x =>
    rw [perform_combination (i := .memoryCompare c w r x) rfl]
    exact combine_trapsWith word (List.Subset.refl _) fun _ _ _ h => by cases h
  case load signed w r x =>
    exact .bind (.of_apply fun _ => operandAddress_apply x) fun a =>
      .bind (.bind (.loadPlaced w a signed) fun _ => .of_apply fun _ => rfl) fun _ =>
        .of_apply fun _ => rfl
  case store w r x =>
    exact .bind (.of_apply fun _ => operandAddress_apply x) fun a =>
      .bind (.of_apply fun _ => rfl) fun v =>
        .bind (.bind (.translate a w .write) fun p => .storePlaced p w v) fun _ =>
          .of_apply fun _ => rfl
  case loadReserve w r x =>
    exact .bind (.of_apply fun _ => operandAddress_apply x) fun a =>
      .bind (.loadPlaced w a false) fun ⟨_, _⟩ => .of_apply fun _ => rfl
  case storeConditional w r x =>
    exact .bind (.of_apply fun _ => operandAddress_apply x) fun a =>
      .bind (.of_apply fun _ => rfl) fun v => .bind (.translate a w .write) fun p =>
        .bind (.of_apply fun _ => rfl) fun s => .bind (.of_apply fun _ => rfl) fun _ =>
          .ite (.bind (.storePlaced p w v) fun _ => .of_apply fun _ => rfl)
            (.of_apply fun _ => rfl)

theorem branch_trapsWith (word : InstructionWord) (ia : BitVec 52) {i : Instruction}
    (hi : i.group = 2) : TrapsWith i.codes (perform word ia i : Exec δ Flow) := by
  cases i <;> cases hi
  case branch r d => exact .branchLinked ia r _
  case branchRegister r b =>
    exact .bind (.of_apply fun _ => rfl) fun t => .branchLinked ia r t
  case branchIndexed r b a =>
    exact .bind (.of_apply fun _ => rfl) fun _ => .bind (.of_apply fun _ => rfl) fun _ =>
      .branchLinked ia r _
  case branchBit sense r bit d =>
    have hbit (position : Nat) : TrapsWith [.alignment] (do
        if (← general r).getLsbD position == sense then branchTo (relative ia d)
        else return .next : Exec δ Flow) :=
      .bind (.of_apply fun _ => rfl) fun _ => .ite (.branchTo _) (.of_apply fun _ => rfl)
    cases bit
    case fixed p => exact hbit p.toNat
    case shiftAmount => exact .bind (.of_apply fun _ => rfl) fun n => hbit n
  case branchCompare c r b d =>
    exact .bind (.of_apply fun _ => rfl) fun _ => .bind (.of_apply fun _ => rfl) fun _ =>
      .ite (.branchTo _) (.of_apply fun _ => rfl)
  case branchTable b limit => exact .bind (.of_apply fun _ => rfl) fun _ => .branchTo _

theorem arithmetic_trapsWith (word : InstructionWord) (ia : BitVec 52) {i : Instruction}
    (hi : i.group = 0) : TrapsWith i.codes (perform word ia i : Exec δ Flow) := by
  cases i <;> cases hi
  case binary op r b x m =>
    have hx : TrapsWith op.codes (operand x : Exec δ Word) := by
      cases x <;> exact .of_apply fun _ => rfl
    exact .bind (.of_apply fun _ => rfl) fun _ => .bind hx fun _ =>
      .bind (.of_apply fun _ => rfl) fun _ =>
        .checkedResult word r _ fun h => BinaryOp.overflow_mem_codes h
  case compare c r b x => cases x <;> exact .of_apply fun _ => rfl
  case bitField op r b position last => cases op <;> exact .of_apply fun _ => rfl
  case shiftAdd left distance r b a =>
    exact .bind (.of_apply fun _ => rfl) fun _ => .bind (.of_apply fun _ => rfl) fun _ =>
      .bind (.of_apply fun _ => rfl) fun _ =>
        .checkedResult word r _ fun _ => List.mem_singleton.mpr rfl
  all_goals exact .of_apply fun _ => rfl

theorem system_trapsWith (word : InstructionWord) (ia : BitVec 52) {i : Instruction}
    (hi : i.group = 3) (hl : i.isLegal = true) :
    TrapsWith i.codes (perform word ia i : Exec δ Flow) := by
  cases i <;> cases hi
  case physicalAddress r b =>
    exact .bind (.of_apply fun _ => rfl) fun a => .bind (.resolve a) fun _ =>
      .of_apply fun _ => rfl
  case probe kind r b =>
    obtain ⟨k, rfl⟩ := Option.isSome_iff_exists.mp hl
    exact .of_apply fun _ => rfl
  case tlbPurge b =>
    refine .bind (.of_apply fun _ => rfl) fun _ => .bind (.of_apply fun _ => rfl) fun _ =>
      .bind (.of_apply fun _ => rfl) fun _ => ?_
    split <;> exact .of_apply fun _ => rfl
  case trap r n =>
    exact .bind (.of_apply fun _ => rfl) fun _ => .throw (List.mem_singleton.mpr rfl)
  all_goals exact .of_apply fun _ => rfl

/-- A legal instruction traps with its own causes. -/
theorem perform_trapsWith (word : InstructionWord) (ia : BitVec 52) {i : Instruction}
    (hl : i.isLegal = true) : TrapsWith i.codes (perform word ia i : Exec δ Flow) := by
  rcases ha : i.isAccess with _ | _
  · have hgroup : i.group = 0 ∨ i.group = 2 ∨ i.group = 3 := by
      cases i <;> cases ha <;> simp [Instruction.group]
    rcases hgroup with hg | hg | hg
    · exact arithmetic_trapsWith word ia hg
    · exact branch_trapsWith word ia hg
    · exact system_trapsWith word ia hg hl
  · exact access_trapsWith word ia ha

theorem TrapsOnOperands.fetch (a : Word) :
    TrapsOnOperands (fetch a : Exec δ (BitVec 32)) :=
  (TrapsWith.fetch a).onOperands (by decide)

/-- An instruction that may be executed traps about its operands only. -/
theorem perform_onOperands (word : InstructionWord) (ia : BitVec 52) {i : Instruction}
    (hl : i.isLegal = true) : TrapsOnOperands (perform word ia i : Exec δ Flow) :=
  (perform_trapsWith word ia hl).onOperands i.codes_subset

/-- The trap of an instruction is about its operands, or about its word. -/
theorem instructionAt_error_code {ia : BitVec 52} {s s' : Session δ} {t : Trap}
    (h : instructionAt ia s = .error t s') : t.code ∈ TrapCode.ofOperands ∨
      ∃ word : InstructionWord,
        t = word.trap .privilegeViolation ∨ t = word.trap .illegalInstruction := by
  simp only [instructionAt, bind_eq_error, mapRegisters_apply, countGroup, count_apply,
    pure_apply, EStateM.Result.ok.injEq, reduceCtorEq, and_false, exists_false, or_false,
    false_or] at h
  rcases h with h | ⟨word, s₁, -, _, _, ⟨-, rfl⟩, h⟩
  · exact .inl ((TrapsOnOperands.fetch _).code_mem h)
  · rcases execute_error h with ⟨-, hrefused⟩ | ⟨i, -, hl, h⟩
    · exact .inr ⟨word, hrefused⟩
    · exact .inl ((perform_onOperands word ia hl).code_mem h)

end Exec

namespace Session

variable [Device δ] {s : Session δ} {t : Trap}

/-- A cycle that cannot fetch its word traps about the access. -/
theorem code_mem_of_fetch_error {e : Trap} {s₁ : Session δ}
    (hf : Exec.fetch s.machine.registers.status.location s.begun = .error e s₁)
    (ht : s.trap? = some t) : t.code ∈ TrapCode.ofAccess := by
  have hi : Exec.instructionAt s.machine.registers.status.address s.begun = .error e s₁ :=
    Exec.bind_eq_error.mpr (.inl hf)
  obtain rfl := Option.some.inj ((cycle_of_error hi).1.symm.trans ht)
  exact (Exec.TrapsWith.fetch _).code_mem hf

/-- What a cycle traps with has a cause. -/
theorem code_ne_noTrap (h : s.trap? = some t) : t.code ≠ .noTrap := by
  obtain ⟨_, he, -⟩ := cycle_of_trap h
  rcases Exec.instructionAt_error_code he with hc | ⟨word, rfl | rfl⟩
  · intro hnone
    rw [hnone] at hc
    revert hc
    decide
  · simp [InstructionWord.trap]
  · simp [InstructionWord.trap]

end Session

end Processor64
