import Processor64.Proofs.Ending

/-!
# One instruction from two words

Two words of one opcode that decode to one instruction are executed in lockstep (`perform_alike`):
from sessions that differ in the instruction register only, both complete or both trap, and what
they leave differs in that register only. A trap that tells the word of its instruction tells that
word, and no computation looks at the instruction register.
-/

namespace Processor64

variable {δ α β : Type}

/-- Traps of two words that tell the same, except that each may tell its own word. -/
structure Trap.SameFor (w₁ w₂ : InstructionWord) (t₁ t₂ : Trap) : Prop where
  code : t₁.code = t₂.code
  info1 : t₁.info1 = t₂.info1 ∨ t₁.info1 = w₁ ∧ t₂.info1 = w₂
  info2 : t₁.info2 = t₂.info2
  info3 : t₁.info3 = t₂.info3

theorem Registers.noteStore_withInstruction (s : Registers) (word : InstructionWord) (a : Word)
    (n : Nat) : noteStore { s with instruction := word } a n =
      { s.noteStore a n with instruction := word } := by
  rcases s with ⟨_, _, _, _, _ | r⟩
  · rfl
  · simp only [noteStore]
    split <;> rfl

namespace Exec

variable {w₁ w₂ : InstructionWord}

/-- The results agree except that each session holds its own word in the instruction register, and
each trap may tell its own word. -/
inductive Agree (w₁ w₂ : InstructionWord) :
    EStateM.Result Trap (Session δ) α → EStateM.Result Trap (Session δ) α → Prop where
  | ok (a : α) (s : Session δ) :
    Agree w₁ w₂ (.ok a (s.withInstruction w₁)) (.ok a (s.withInstruction w₂))
  | error {t₁ t₂ : Trap} (told : t₁.SameFor w₁ w₂ t₂) (s : Session δ) :
    Agree w₁ w₂ (.error t₁ (s.withInstruction w₁)) (.error t₂ (s.withInstruction w₂))

/-- From sessions that differ in the instruction register only, the computations end in such. -/
def Alike (w₁ w₂ : InstructionWord) (x y : Exec δ α) : Prop :=
  ∀ s : Session δ, Agree w₁ w₂ (x (s.withInstruction w₁)) (y (s.withInstruction w₂))

namespace Alike

theorem bind {x y : Exec δ α} {f g : α → Exec δ β} (hx : Alike w₁ w₂ x y)
    (hf : ∀ a, Alike w₁ w₂ (f a) (g a)) : Alike w₁ w₂ (x >>= f) (y >>= g) := by
  intro s
  show Agree w₁ w₂ (EStateM.bind x f _) (EStateM.bind y g _)
  unfold EStateM.bind
  have h := hx s
  generalize x (s.withInstruction w₁) = r₁, y (s.withInstruction w₂) = r₂ at h
  cases h with
  | ok a s' => exact hf a s'
  | error told s' => exact .error told s'

theorem pure (a : α) : Alike w₁ w₂ (pure a : Exec δ α) (pure a) := fun s => .ok a s

theorem throw (t : Trap) : Alike w₁ w₂ (throw t : Exec δ α) (throw t) :=
  fun s => .error ⟨rfl, .inl rfl, rfl, rfl⟩ s

/-- Two words of one opcode tell it in their traps. -/
theorem throw_word (hg : w₁.group = w₂.group) (hf : w₁.family = w₂.family) (code : TrapCode) :
    Alike w₁ w₂ (MonadExcept.throw (w₁.trap code) : Exec δ α)
      (MonadExcept.throw (w₂.trap code)) := by
  have told : (w₁.trap code).SameFor w₁ w₂ (w₂.trap code) :=
    ⟨rfl, .inr ⟨rfl, rfl⟩, congrArg (·.setWidth 32) hg, congrArg (·.setWidth 32) hf⟩
  exact fun s => .error told s

/-- The rest of a computation may look at the machine, as long as that shows no word. -/
theorem bind_machine {f g : Machine δ → Exec δ α}
    (h : ∀ s : Session δ, Alike w₁ w₂ (f (s.withInstruction w₁).machine)
      (g (s.withInstruction w₂).machine)) : Alike w₁ w₂ (machine >>= f) (machine >>= g) :=
  fun s => h s s

/-- What follows a look at the registers may not tell the words apart. -/
theorem bind_registers {f g : Registers → Exec δ α}
    (h : ∀ s : Registers, Alike w₁ w₂ (f { s with instruction := w₁ })
      (g { s with instruction := w₂ })) : Alike w₁ w₂ (registers >>= f) (registers >>= g) :=
  fun s => h s.machine.registers s

theorem mapRegisters {f : Registers → Registers}
    (h : ∀ s w, f { s with instruction := w } = { f s with instruction := w }) :
    Alike w₁ w₂ (mapRegisters f : Exec δ Unit) (mapRegisters f) := by
  intro s
  have hs (w : InstructionWord) : Exec.mapRegisters f (s.withInstruction w) =
      .ok () ((s.withRegisters (f s.machine.registers)).withInstruction w) := by
    rw [mapRegisters_apply]
    exact congrArg (fun r => EStateM.Result.ok () (s.withRegisters r)) (h s.machine.registers w)
  rw [hs, hs]
  exact .ok () _

theorem mapTlb (t : Tlb) : Alike w₁ w₂ (mapMachine fun m : Machine δ => { m with tlb := t })
    (mapMachine fun m => { m with tlb := t }) :=
  fun s => .ok () (s.withTlb t)

theorem count (f : Counters → Counters) : Alike w₁ w₂ (count f : Exec δ Unit) (count f) :=
  fun s => .ok () (s.count f)

theorem emit (es : List Event) : Alike w₁ w₂ (emit es : Exec δ Unit) (emit es) :=
  fun s => .ok () (s.emit es)

theorem ofExcept (r : Except Trap α) :
    Alike w₁ w₂ (ofExcept r : Exec δ α) (ofExcept r) := by
  cases r
  · exact throw _
  · exact pure _

theorem general (r : Register) : Alike w₁ w₂ (general r : Exec δ Word) (general r) :=
  bind_registers fun s => pure (s.general r)

theorem control (c : ControlRegister) : Alike w₁ w₂ (control c : Exec δ Word) (control c) :=
  bind_registers fun s => pure (s.control c)

theorem status : Alike w₁ w₂ (status : Exec δ StatusWord) status :=
  bind_registers fun s => pure s.status

theorem shiftAmount : Alike w₁ w₂ (shiftAmount : Exec δ Nat) shiftAmount :=
  bind (control .shiftAmount) fun _ => pure _

theorem operand (x : Operand) : Alike w₁ w₂ (operand x : Exec δ Word) (operand x) := by
  cases x
  · exact general _
  · exact pure _

theorem operandAddress (x : MemoryOperand) :
    Alike w₁ w₂ (operandAddress x : Exec δ Word) (operandAddress x) := by
  cases x
  · exact bind (general _) fun _ => bind (general _) fun _ => pure _
  · exact bind (general _) fun _ => pure _

theorem setGeneral (r : Register) (v : Word) :
    Alike w₁ w₂ (setGeneral r v : Exec δ Unit) (setGeneral r v) :=
  mapRegisters fun s w => by
    unfold Registers.setGeneral
    split <;> rfl

theorem result (r : Register) (v : Word) :
    Alike w₁ w₂ (result r v : Exec δ Flow) (result r v) :=
  bind (setGeneral r v) fun _ => pure _

/-- Words of one group and one family trap alike on an overflow. -/
theorem checkedResult (hg : w₁.group = w₂.group) (hf : w₁.family = w₂.family) (r : Register)
    (v : Option Word) :
    Alike w₁ w₂ (checkedResult w₁ r v : Exec δ Flow) (checkedResult w₂ r v) := by
  cases v
  · exact throw_word hg hf _
  · exact result r _

theorem branchTo (t : Word) : Alike w₁ w₂ (branchTo t : Exec δ Flow) (branchTo t) := by
  unfold Exec.branchTo
  split
  · exact pure _
  · exact throw _

theorem branchLinked (ia : BitVec 52) (r : Register) (t : Word) :
    Alike w₁ w₂ (branchLinked ia r t : Exec δ Flow) (branchLinked ia r t) :=
  bind (branchTo t) fun _ => bind (setGeneral r _) fun _ => pure _

theorem ite {c : Prop} [Decidable c] {x x' y y' : Exec δ α} (hx : Alike w₁ w₂ x x')
    (hy : Alike w₁ w₂ y y') : Alike w₁ w₂ (if c then x else y) (if c then x' else y') := by
  split <;> assumption

/-! ## Accesses -/

theorem translate (a : Word) (w : Width) (k : AccessKind) :
    Alike w₁ w₂ (translate a w k : Exec δ Word) (translate a w k) := by
  intro s
  have hplace (word : InstructionWord) :
      (s.withInstruction word).machine.place a w k = s.machine.place a w k := rfl
  rw [translate_apply, translate_apply, hplace, hplace]
  rcases s.machine.place a w k with ⟨_ | p, t⟩
  · exact throw _ (s.withTlb t)
  · exact pure p (s.withTlb t)

theorem resolve (a : Word) : Alike w₁ w₂ (resolve a : Exec δ Word) (resolve a) :=
  bind_machine fun s =>
    bind (mapTlb (s.machine.tlb.resolve a s.machine.accessContext).2) fun _ => ofExcept _

theorem absorb (r : Except Trap (Reply (Memory δ) α)) :
    Alike w₁ w₂ (absorb r) (absorb r) := by
  cases r
  · exact throw _
  · exact fun s => .ok _ (s.afterReply _)

section Access

variable [Device δ] (a p v : Word) (w : Width) (signed : Bool)

theorem readMemory :
    Alike w₁ w₂ (readMemory p w signed : Exec δ Word) (readMemory p w signed) :=
  bind_machine fun _ => absorb _

theorem previewMemory :
    Alike w₁ w₂ (previewMemory p w signed : Exec δ Word) (previewMemory p w signed) :=
  bind_machine fun _ => absorb _

theorem writeMemory : Alike w₁ w₂ (writeMemory p w v : Exec δ Unit) (writeMemory p w v) :=
  bind_machine fun _ => absorb _

theorem loadPlaced :
    Alike w₁ w₂ (loadPlaced a w signed : Exec δ (Word × Word)) (loadPlaced a w signed) :=
  bind (translate a w .read) fun p => bind (readMemory p w signed) fun _ =>
    bind (count _) fun _ => pure _

theorem load : Alike w₁ w₂ (load a w signed : Exec δ Word) (load a w signed) :=
  bind (loadPlaced a w signed) fun _ => pure _

theorem previewLoad :
    Alike w₁ w₂ (previewLoad a w signed : Exec δ (Word × Word)) (previewLoad a w signed) :=
  bind (translate a w .read) fun p => bind (previewMemory p w signed) fun _ => pure _

theorem commitLoad : Alike w₁ w₂ (commitLoad p w : Exec δ Unit) (commitLoad p w) :=
  bind (bind (readMemory p w false) fun _ => pure _) fun _ => count _

theorem storePlaced :
    Alike w₁ w₂ (storePlaced p w v : Exec δ Unit) (storePlaced p w v) :=
  bind (bind (writeMemory p v w) fun _ => mapRegisters fun s word =>
    s.noteStore_withInstruction word p w.bytes) fun _ => count _

theorem store : Alike w₁ w₂ (store a w v : Exec δ Unit) (store a w v) :=
  bind (translate a w .write) fun p => storePlaced p v w

end Access

end Alike

/-! ## Instructions -/

variable [Device δ] (hg : w₁.group = w₂.group) (hf : w₁.family = w₂.family)

include hg hf in
/-- An operation with memory does not depend on the word it was read from. -/
theorem combine_alike (o : Combination) :
    Alike w₁ w₂ (combine w₁ o : Exec δ Flow) (combine w₂ o) := by
  refine .bind (.operandAddress o.operand) fun a => .bind (.general o.register) fun old =>
    .bind (.previewLoad a o.width true) fun ⟨p, v⟩ => .bind .status fun st => ?_
  rcases o.result? st.checksOverflow old v with _ | v'
  · exact .throw_word hg hf _
  · exact .bind (.commitLoad p o.width) fun _ => .result o.register v'

include hg hf in
/-- Two words of one opcode perform an instruction alike. -/
theorem perform_alike (ia : BitVec 52) {i : Instruction} (hl : i.isLegal = true) :
    Alike w₁ w₂ (perform w₁ ia i : Exec δ Flow) (perform w₂ ia i) := by
  cases i
  case nop | cacheFlush | cachePurge | diagnose | halt => exact .pure _
  case binary op r b x m =>
    exact .bind (.general b) fun _ => .bind (.operand x) fun _ => .bind .status fun _ =>
      .checkedResult hg hf r _
  case compare c r b x =>
    exact .bind (.general b) fun _ => .bind (.operand x) fun _ => .result r _
  case bitField op r b position last =>
    refine .bind (.general b) fun v => ?_
    cases op
    case deposit => exact .bind (.general r) fun _ => .result r _
    all_goals exact .result r _
  case doubleShift r b a =>
    exact .bind (.general b) fun _ => .bind (.general a) fun _ => .bind .shiftAmount fun _ =>
      .result r _
  case shiftAdd left distance r b a =>
    exact .bind (.general b) fun _ => .bind (.general a) fun _ => .bind .status fun _ =>
      .checkedResult hg hf r _
  case loadImmediate part r v => exact .bind (.general r) fun _ => .result r _
  case loadOffset r b v => exact .bind (.general b) fun _ => .result r _
  case memoryBinary op w r x m =>
    rw [perform_combination (i := .memoryBinary op w r x m) rfl,
      perform_combination (i := .memoryBinary op w r x m) rfl]
    exact combine_alike hg hf _
  case memoryCompare c w r x =>
    rw [perform_combination (i := .memoryCompare c w r x) rfl,
      perform_combination (i := .memoryCompare c w r x) rfl]
    exact combine_alike hg hf _
  case load signed w r x =>
    exact .bind (.operandAddress x) fun a => .bind (.load a w signed) fun v => .result r v
  case store w r x =>
    exact .bind (.operandAddress x) fun a => .bind (.general r) fun v =>
      .bind (.store a v w) fun _ => .pure _
  case loadReserve w r x =>
    exact .bind (.operandAddress x) fun a => .bind (.loadPlaced a w false) fun ⟨p, v⟩ =>
      .bind (.mapRegisters fun _ _ => rfl) fun _ => .result r v
  case storeConditional w r x =>
    exact .bind (.operandAddress x) fun a => .bind (.general r) fun v =>
      .bind (.translate a w .write) fun p => .bind_registers fun _ =>
        .bind (.mapRegisters fun _ _ => rfl) fun _ =>
          .ite (.bind (.storePlaced p v w) fun _ => .result r 1)
            (.bind (.count _) fun _ => .result r 0)
  case branch r d => exact .branchLinked ia r _
  case branchRegister r b => exact .bind (.general b) fun t => .branchLinked ia r t
  case branchIndexed r b a =>
    exact .bind (.general b) fun _ => .bind (.general a) fun _ => .branchLinked ia r _
  case branchBit sense r bit d =>
    cases bit
    case fixed p =>
      exact .bind (.pure p.toNat) fun _ => .bind (.general r) fun _ =>
        .ite (.branchTo _) (.pure _)
    case shiftAmount =>
      exact .bind .shiftAmount fun _ => .bind (.general r) fun _ => .ite (.branchTo _) (.pure _)
  case branchCompare c r b d =>
    exact .bind (.general r) fun _ => .bind (.general b) fun _ => .ite (.branchTo _) (.pure _)
  case branchTable b limit => exact .bind (.general b) fun _ => .branchTo _
  case moveFromControl r c => exact .bind_registers fun s => .result r (s.controlCell c)
  case moveToControl r c =>
    exact .bind (.general r) fun v => .bind (.mapRegisters fun _ _ => rfl) fun _ => .pure _
  case physicalAddress r b =>
    exact .bind (.general b) fun a => .bind (.resolve a) fun p => .result r p
  case probe kind r b =>
    rcases kind with _ | k
    · cases hl
    · exact .bind_machine fun s => .bind (.general b) fun a =>
        .result r (flag (s.machine.tlb.probe a k s.machine.accessContext))
  case tlbInsert r b a =>
    exact .bind (.general r) fun _ => .bind (.general b) fun _ => .bind (.general a) fun _ =>
      .bind_machine fun _ => .bind (.mapTlb _) fun _ => .bind (.emit _) fun _ => .pure _
  case tlbPurge b =>
    refine .bind (.general b) fun a => .bind_machine fun s =>
      .bind (.mapTlb (s.machine.tlb.purge a).2) fun _ => ?_
    exact .ite (.pure _) (.bind (.emit _) fun _ => .pure _)
  case tlbReset => exact fun s => .ok _ (s.withTlb s.machine.tlb.reset)
  case modifyStatus on r modes =>
    exact .bind .status fun old => .bind (.setGeneral r _) fun _ =>
      .bind (.mapRegisters fun _ _ => rfl) fun _ => .pure _
  case returnFromTrap => exact .bind (.control .trapStatus) fun _ => .pure _
  case trap r n => exact .bind (.general r) fun v => .throw _

end Exec

end Processor64
