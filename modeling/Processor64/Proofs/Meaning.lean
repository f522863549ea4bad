import Processor64.Proofs.Lockstep
import Processor64.Proofs.Spelling

/-!
# What the text of an instruction tells

The text of a word tells what the word does. Two words with one text, unless that is the number of
a word which is no instruction, have the same outcome in every session (`same_outcome_of_text`).

Texts leave out two things that tell: the modifiers which additions, subtractions and exclusive ors
do not accept (`hidesModifier`), and the register of a software trap.
-/

namespace Processor64

variable {δ : Type}

/-! ## What texts leave out -/

namespace Instruction

/-- Whether the instruction has a modifier that its operation does not accept, and that its text
does not show. -/
def hidesModifier : Instruction → Bool
  | binary op _ _ _ m | memoryBinary op _ _ _ m => !op.accepts m
  | _ => false

variable {i j : Instruction}

@[simp]
theorem group_written (i : Instruction) : i.written.group = i.group := by cases i <;> rfl

@[simp]
theorem family_written (i : Instruction) : i.written.family = i.family := by cases i <;> rfl

@[simp]
theorem isPrivileged_written (i : Instruction) : i.written.isPrivileged = i.isPrivileged := by
  cases i <;> rfl

/-- An instruction is legal if its written form is and nothing in it goes unwritten. -/
theorem isLegal_eq (i : Instruction) :
    i.isLegal = (!i.hidesModifier && i.written.isLegal) := by
  have haccepts (op : BinaryOp) (m : Modifiers) : op.accepts (op.written m) = true := by
    cases op <;> rfl
  cases i <;> simp [isLegal, hidesModifier, written, haccepts]

/-- An instruction that may be executed is all that its text shows, or a trap. -/
theorem written_of_legal (h : i.isLegal = true) : i.written = i ∨ ∃ r n, i = trap r n := by
  have haccepts {op : BinaryOp} {m : Modifiers} (h : op.accepts m = true) : op.written m = m := by
    rcases m with ⟨_ | _, _ | _⟩ <;> cases op <;> first | rfl | cases h
  cases i
  case binary op r b x m => exact .inl (congrArg (binary op r b x) (haccepts h))
  case memoryBinary op w r x m => exact .inl (congrArg (memoryBinary op w r x) (haccepts h))
  case trap r n => exact .inr ⟨r, n, rfl⟩
  all_goals exact .inl rfl

theorem trap_of_written {n : BitVec 13} (h : i.written = trap 0 n) : ∃ r, i = trap r n := by
  cases i <;> cases h
  exact ⟨_, rfl⟩

/-- Two instructions that may be executed and have one text are the same, or two traps of one
number. -/
theorem eq_of_written (hi : i.isLegal = true) (hj : j.isLegal = true)
    (h : i.written = j.written) : i = j ∨ ∃ r r' n, i = trap r n ∧ j = trap r' n := by
  rcases written_of_legal hi with hi | ⟨r, n, rfl⟩
  · rcases written_of_legal hj with hj | ⟨r', n, rfl⟩
    · exact .inl (hi.symm.trans (h.trans hj))
    · obtain ⟨r, rfl⟩ := trap_of_written h
      exact .inr ⟨r, r', n, rfl, rfl⟩
  · obtain ⟨r', rfl⟩ := trap_of_written h.symm
    exact .inr ⟨r, r', n, rfl, rfl⟩

/-- A trap names its register in the field R. -/
theorem trap_of_ofWord? {w : InstructionWord} {r : Register} {n : BitVec 13}
    (h : ofWord? w = some (trap r n)) : r = w.r := by
  have hg := congrArg BitVec.toNat (fits_of_ofWord? h).group
  have hs := ofSystemWord?_of_ofWord? hg.symm h
  unfold ofSystemWord? at hs
  split at hs <;> cases hs
  rfl

end Instruction

/-- Whether the word sets a modifier of an addition, a subtraction or an exclusive or that is
reserved there, and that its text does not show. -/
def InstructionWord.hidesModifier (w : InstructionWord) : Bool :=
  (Instruction.ofWord? w).any (·.hidesModifier)

/-- Words whose instructions are shown alike have one opcode. -/
theorem InstructionWord.opcode_of_written {w₁ w₂ : InstructionWord} {i₁ i₂ : Instruction}
    (hi₁ : Instruction.ofWord? w₁ = some i₁) (hi₂ : Instruction.ofWord? w₂ = some i₂)
    (hw : i₁.written = i₂.written) : w₁.group = w₂.group ∧ w₁.family = w₂.family ∧
      w₁.isPrivileged = w₂.isPrivileged := by
  obtain ⟨hg₁, hf₁, -⟩ := Instruction.fits_of_ofWord? hi₁
  obtain ⟨hg₂, hf₂, -⟩ := Instruction.fits_of_ofWord? hi₂
  rw [← hg₁, ← hg₂, ← hf₁, ← hf₂, Instruction.isPrivileged_of_ofWord? hi₁,
    Instruction.isPrivileged_of_ofWord? hi₂, ← i₁.group_written, ← i₁.family_written,
    ← i₁.isPrivileged_written, hw, i₂.group_written, i₂.family_written, i₂.isPrivileged_written]
  exact ⟨rfl, rfl, rfl⟩

theorem InstructionWord.ofWord?_of_text {w : InstructionWord}
    (h : ∀ n, w.text ≠ "ILLEGAL " ++ Numeral.hexFilled 8 n) :
    ∃ i, Instruction.ofWord? w = some i ∧ w.text = i.text := by
  unfold text at *
  rcases hi : Instruction.ofWord? w with _ | i
  · rw [hi] at h
    exact absurd rfl (h w.toNat)
  · exact ⟨i, rfl, rfl⟩

namespace Exec

variable [Device δ] {w₁ w₂ : InstructionWord}

/-- Words whose instructions are shown alike are executed alike if none of them may be executed, or
both are words of one instruction. -/
theorem execute_alike {i₁ i₂ : Instruction} (hi₁ : Instruction.ofWord? w₁ = some i₁)
    (hi₂ : Instruction.ofWord? w₂ = some i₂) (hw : i₁.written = i₂.written)
    (hl : i₁.isLegal = i₂.isLegal) (hi : i₁.isLegal = true → i₁ = i₂) (ia : BitVec 52) :
    Alike w₁ w₂ (execute w₁ ia : Exec δ Flow) (execute w₂ ia) := by
  obtain ⟨hg, hf, hp⟩ := InstructionWord.opcode_of_written hi₁ hi₂ hw
  unfold execute
  rw [hi₁, hi₂, hp]
  refine .bind .status fun st => .ite (.throw_word hg hf _) ?_
  dsimp only
  rcases hlegal : i₁.isLegal
  · rw [← hl, hlegal]
    exact .throw_word hg hf _
  · rw [← hi hlegal, hlegal]
    exact perform_alike hg hf ia hlegal

/-- A software trap carries its number and the value of its register. -/
theorem execute_trap {word : InstructionWord} {r : Register} {n : BitVec 13}
    (hi : Instruction.ofWord? word = some (.trap r n)) (ia : BitVec 52) (s : Session δ) :
    execute word ia s = .error
      (.software (n.setWidth 32) ((s.machine.registers.general word.r).extractLsb' 0 32)) s := by
  have hp : word.isPrivileged = false := Instruction.isPrivileged_of_ofWord? hi
  rw [execute_apply, hp, hi, ← Instruction.trap_of_ofWord? hi]
  rfl

end Exec

namespace Session

variable [Device δ]

/-- Obeying either word from the session has the same outcome. Where both complete they leave the
same machine but for the instruction register, and where both trap they do so in the same session
but for that register and with traps that tell the same but for the word. What a software trap
tells second is no part of a text: each word tells the low half of its own register. -/
inductive SameOutcome (s : Session δ) (ia : BitVec 52) (w₁ w₂ : InstructionWord) : Prop where
  | retired (first : s.obeyTrap? w₁ ia = none) (second : s.obeyTrap? w₂ ia = none)
    (reason : (s.obey w₁ ia).1 = (s.obey w₂ ia).1)
    (machine : (s.obey w₂ ia).2.machine = ((s.obey w₁ ia).2.withInstruction w₂).machine)
  | trapped (s' : Session δ) {t₁ t₂ : Trap} (told : t₁.SameFor w₁ w₂ t₂)
    (first : s.obeyTrap? w₁ ia = some t₁) (second : s.obeyTrap? w₂ ia = some t₂)
    (takes_first : s.obey w₁ ia = (s'.withInstruction w₁).takeTrap t₁ ia)
    (takes_second : s.obey w₂ ia = (s'.withInstruction w₂).takeTrap t₂ ia)
  | software (n : BitVec 32) {t₁ t₂ : Trap}
    (tells_first : t₁ = .software n ((s.machine.registers.general w₁.r).extractLsb' 0 32))
    (tells_second : t₂ = .software n ((s.machine.registers.general w₂.r).extractLsb' 0 32))
    (first : s.obeyTrap? w₁ ia = some t₁) (second : s.obeyTrap? w₂ ia = some t₂)
    (takes_first : s.obey w₁ ia = (s.withInstruction w₁).takeTrap t₁ ia)
    (takes_second : s.obey w₂ ia = (s.withInstruction w₂).takeTrap t₂ ia)

variable {s : Session δ} {ia : BitVec 52} {w₁ w₂ : InstructionWord}

theorem sameOutcome_of_agree (hg : w₁.group = w₂.group)
    (h : Exec.Agree w₁ w₂ (Exec.execute w₁ ia (s.withInstruction w₁))
      (Exec.execute w₂ ia (s.withInstruction w₂))) : s.SameOutcome ia w₁ w₂ := by
  generalize h₁ : Exec.execute w₁ ia (s.withInstruction w₁) = r₁ at h
  generalize h₂ : Exec.execute w₂ ia (s.withInstruction w₂) = r₂ at h
  cases h with
  | ok flow s' =>
    refine .retired (by rw [obeyTrap?, h₁]) (by rw [obeyTrap?, h₂]) ?_ ?_
    · simp only [obey, h₁, h₂, retire_fst]
    · simp only [obey, h₁, h₂, hg]
      simp only [withInstruction, machine_withRegisters, machine_retire]
      rfl
  | error told s' =>
    exact .trapped s' told (by rw [obeyTrap?, h₁]) (by rw [obeyTrap?, h₂]) (by rw [obey, h₁])
      (by rw [obey, h₂])

/-- Two words of one text that is no number have the same outcome in every session, unless only
one of them has a modifier that the text does not show. -/
theorem same_outcome_of_text (s : Session δ) (ia : BitVec 52) (ht : w₁.text = w₂.text)
    (hill : ∀ n, w₁.text ≠ "ILLEGAL " ++ Numeral.hexFilled 8 n)
    (hm : w₁.hidesModifier = w₂.hidesModifier) : s.SameOutcome ia w₁ w₂ := by
  obtain ⟨i₁, hi₁, ht₁⟩ := InstructionWord.ofWord?_of_text hill
  obtain ⟨i₂, hi₂, ht₂⟩ := InstructionWord.ofWord?_of_text (ht ▸ hill)
  have hw := Instruction.written_of_text (ht₁.symm.trans (ht.trans ht₂))
  have hl : i₁.isLegal = i₂.isLegal := by
    simp only [InstructionWord.hidesModifier, hi₁, hi₂, Option.any_some] at hm
    rw [i₁.isLegal_eq, i₂.isLegal_eq, hm, hw]
  by_cases htrap : ∃ r r' n, i₁ = .trap r n ∧ i₂ = .trap r' n
  · obtain ⟨r, r', n, rfl, rfl⟩ := htrap
    have h₁ := Exec.execute_trap hi₁ ia (s.withInstruction w₁)
    have h₂ := Exec.execute_trap hi₂ ia (s.withInstruction w₂)
    exact .software (n.setWidth 32) rfl rfl (by rw [obeyTrap?, h₁]; rfl)
      (by rw [obeyTrap?, h₂]; rfl) (by rw [obey, h₁]; rfl) (by rw [obey, h₂]; rfl)
  · have hi : i₁.isLegal = true → i₁ = i₂ := fun hlegal =>
      (Instruction.eq_of_written hlegal (hl ▸ hlegal) hw).resolve_right htrap
    exact sameOutcome_of_agree (InstructionWord.opcode_of_written hi₁ hi₂ hw).1
      (Exec.execute_alike hi₁ hi₂ hw hl hi ia s)

/-- A machine in user mode with two numbers in its registers. -/
def ofNumbers : Session Empty where
  machine := {
    settings := {}
    registers := (Registers.cleared.setGeneral 1 1).setGeneral 2 2
    tlb := .create 1
    memory := ⟨ByteStore.zeros 0x1000, .create 0⟩
    state := .running
    lastTrap := none
    counters := {}
    handlerEntry := none }
  log := #[]

/-- The register of a trap and a reserved modifier of an addition are not shown, and tell. -/
theorem ofNumbers_not_shown :
    (InstructionWord.text 0xF8400005 = "TRAP #5" ∧ InstructionWord.text 0xF8800005 = "TRAP #5" ∧
      ofNumbers.obeyTrap? 0xF8400005 0 = some (.software 5 1) ∧
      ofNumbers.obeyTrap? 0xF8800005 0 = some (.software 5 2)) ∧
    InstructionWord.text 0x04480005 = "ADD R1, R0, #5" ∧
      InstructionWord.text 0x04580005 = "ADD R1, R0, #5" ∧
      ofNumbers.obeyTrap? 0x04480005 0 = none ∧
      ofNumbers.obeyTrap? 0x04580005 0 =
        some (InstructionWord.trap 0x04580005 .illegalInstruction) := by
  decide +kernel

/-- A load does not look at the highest bit of its qualifier. -/
theorem ofNumbers_same_outcome :
    InstructionWord.text 0x6081C008 = InstructionWord.text 0x60A1C008 ∧
    (∀ n, InstructionWord.text 0x6081C008 ≠ "ILLEGAL " ++ Numeral.hexFilled 8 n) ∧
    InstructionWord.hidesModifier 0x6081C008 = InstructionWord.hidesModifier 0x60A1C008 ∧
    ofNumbers.obeyTrap? 0x6081C008 0 = none ∧
    ofNumbers.SameOutcome 0 0x6081C008 0x60A1C008 := by
  have ht : InstructionWord.text 0x6081C008 = InstructionWord.text 0x60A1C008 := by
    decide +kernel
  have hill : ∀ n, InstructionWord.text 0x6081C008 ≠ "ILLEGAL " ++ Numeral.hexFilled 8 n := by
    intro n h
    rw [show InstructionWord.text 0x6081C008 = "LD.W R2, 8(R3)" by decide +kernel] at h
    simpa using congrArg String.toList h
  exact ⟨ht, hill, by decide, by decide, same_outcome_of_text ofNumbers 0 ht hill (by decide)⟩

end Session

end Processor64
