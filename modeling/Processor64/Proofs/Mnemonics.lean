import Processor64.Proofs.Legality
import Processor64.Proofs.Spelling

/-!
# Which words have a mnemonic

The text of a word and its execution are two readings of one table of opcodes. Every word that may
be executed has a mnemonic. Of the reserved words only those have one that are in the table and are
reserved for their operands (`InstructionWord.ReservedOperands`); the others are written as numbers
(`Session.text_illegal_iff`).
-/

namespace Processor64

namespace Instruction

variable {w : InstructionWord} {i : Instruction}

/-! ## No mnemonic is that of the words that have none -/

theorem mnemonic_ne_illegal (i : Instruction) : i.form.1 ≠ "ILLEGAL" := by
  have h : ∀ j ∈ bares, textNumber j.form.1 ≠ textNumber "ILLEGAL" := by decide +kernel
  rw [← mnemonic_bare]
  exact fun hill => h _ i.bare_mem (congrArg textNumber hill)

/-- No instruction is shown as illegal. -/
theorem text_ne_illegal (i : Instruction) (x : String) : i.text ≠ "ILLEGAL " ++ x := by
  intro h
  have hspace : ' ' ∉ "ILLEGAL".toList := by decide
  have ht : i.text.toList = "ILLEGAL".toList ++ ' ' :: x.toList := by
    rw [h, String.toList_append]
    rfl
  rcases i.text_cases with ⟨-, hm⟩ | ⟨-, hm⟩ <;> rw [hm] at ht
  · exact i.notMem_mnemonic (ht ▸ by simp)
  · obtain ⟨hmnemonic, -⟩ := (Numeral.append_cons_inj i.notMem_mnemonic hspace).mp ht
    exact i.mnemonic_ne_illegal (String.toList_inj.mp hmnemonic)

end Instruction

namespace InstructionWord

variable {w : InstructionWord}

/-! ## Words written as numbers -/

/-- The hexadecimal digit of four bits. -/
def hexDigit (d : BitVec 4) : Char :=
  ['0', '1', '2', '3', '4', '5', '6', '7', '8', '9', 'a', 'b', 'c', 'd', 'e', 'f'].getD d.toNat '0'

/-- The digits of a word, each read off four of its bits, the highest first. -/
def hexDigits (w : InstructionWord) : List Char :=
  [28, 24, 20, 16, 12, 8, 4, 0].map fun start => hexDigit (w.extractLsb' start 4)

theorem digitChar_eq_hexDigit (d : BitVec 4) : d.toNat.digitChar = hexDigit d := by
  revert d
  decide

theorem digitChar_of_place (w : InstructionWord) (i : Nat) :
    (w.toNat / 16 ^ i % 16).digitChar = hexDigit (w.extractLsb' (4 * i) 4) := by
  rw [← digitChar_eq_hexDigit, BitVec.extractLsb'_toNat, Nat.shiftRight_eq_div_pow, Nat.pow_mul]

theorem hexFilled_toNat (w : InstructionWord) :
    Numeral.hexFilled 8 w.toNat = "0x" ++ String.ofList w.hexDigits := by
  have hlt : w.toNat < 16 ^ (7 + 1) := w.isLt
  rw [Numeral.hexFilled, Numeral.leftpad_toDigits (by decide) hlt]
  simp only [digitChar_of_place]
  rfl

theorem ofWord?_of_text_illegal {x : String} (h : w.text = "ILLEGAL " ++ x) :
    Instruction.ofWord? w = none := by
  unfold text at h
  rcases hi : Instruction.ofWord? w with _ | i
  · rfl
  · rw [hi] at h
    exact absurd h (i.text_ne_illegal _)

theorem text_eq_illegal_iff :
    w.text = "ILLEGAL 0x" ++ String.ofList w.hexDigits ↔ Instruction.ofWord? w = none := by
  have hmark : "ILLEGAL 0x" ++ String.ofList w.hexDigits =
      "ILLEGAL " ++ Numeral.hexFilled 8 w.toNat := by
    rw [hexFilled_toNat, ← String.append_assoc]
    rfl
  rw [hmark]
  refine ⟨ofWord?_of_text_illegal, fun h => ?_⟩
  rw [text, h]

/-! ## Reserved operands -/

/-- The word is in the table of opcodes and has operands with which it may not be executed: a
modifier that the operation does not accept, a field that leaves its register, a control register
that does not exist or may not be written, or a probe for no kind of access. -/
inductive ReservedOperands (w : InstructionWord) : Prop where
  | modifiers (group : w.group.toNat ≤ 1) (family : w.family.toNat = 1 ∨ w.family.toNat = 2)
    (qualifier : w.qualifier.getLsbD 1 = true ∨ w.qualifier.getLsbD 2 = true)
  | complement (group : w.group.toNat ≤ 1) (family : w.family.toNat = 5)
    (qualifier : w.qualifier.getLsbD 1 = true)
  | fieldRange (group : w.group.toNat = 0) (family : w.family.toNat = 7)
    (qualifier : w.qualifier.toNat ≤ 3)
    (range : 64 < w.fieldPosition.toNat + (w.fieldLast.toNat + 1))
  | moveControl (group : w.group.toNat = 3) (family : w.family.toNat = 1)
    (qualifier : w.qualifier.toNat ≤ 1) (control : ∀ c : ControlRegister, c.number ≠ w.b)
  | moveDescription (group : w.group.toNat = 3) (family : w.family.toNat = 1)
    (qualifier : w.qualifier.toNat = 1) (control : w.b = ControlRegister.cpuInfo.number)
  | probeKind (group : w.group.toNat = 3) (family : w.family.toNat = 3)
    (qualifier : w.qualifier.toNat % 4 = 3)

theorem ReservedOperands.reserved (h : w.ReservedOperands) : w.Reserved := by
  cases h with
  | modifiers hg hf hq => exact .modifiers hg hf hq
  | complement hg hf hq => exact .complement hg hf hq
  | fieldRange hg hf hq hr => exact .fieldRange hg hf hq hr
  | moveControl hg hf _ hc => exact .moveControl hg hf hc
  | moveDescription hg hf hq hc => exact .moveDescription hg hf hq hc
  | probeKind hg hf hq => exact .probeKind hg hf hq

theorem ofWord?_isSome_of_binary (hg : w.group.toNat ≤ 1)
    (hf : w.family.toNat ∈ [1, 2, 5]) : (Instruction.ofWord? w).isSome := by
  unfold Instruction.ofWord? Instruction.ofArithmeticWord? Instruction.ofMemoryWord?
  obtain hg | hg : w.group.toNat = 0 ∨ w.group.toNat = 1 := by omega
  all_goals
    simp only [List.mem_cons, List.not_mem_nil, or_false] at hf
    rcases hf with hf | hf | hf <;> rw [hg, hf] <;> rfl

theorem ofWord?_isSome_of_move (hg : w.group.toNat = 3) (hf : w.family.toNat = 1)
    (hq : w.qualifier.toNat ≤ 1) : (Instruction.ofWord? w).isSome := by
  unfold Instruction.ofWord? Instruction.ofSystemWord?
  obtain hq | hq : w.qualifier.toNat = 0 ∨ w.qualifier.toNat = 1 := by omega
  all_goals rw [hg, hf, hq]; rfl

/-- A word with reserved operands holds an instruction. -/
theorem ReservedOperands.isSome (h : w.ReservedOperands) :
    (Instruction.ofWord? w).isSome := by
  cases h with
  | modifiers hg hf _ => exact ofWord?_isSome_of_binary hg (by rcases hf with h | h <;> simp [h])
  | complement hg hf _ => exact ofWord?_isSome_of_binary hg (by simp [hf])
  | fieldRange hg hf hq _ =>
    unfold Instruction.ofWord? Instruction.ofArithmeticWord? Instruction.ofBitFieldWord?
    obtain hq | hq | hq | hq : w.qualifier.toNat = 0 ∨ w.qualifier.toNat = 1 ∨
      w.qualifier.toNat = 2 ∨ w.qualifier.toNat = 3 := by omega
    all_goals rw [hg, hf, hq]; rfl
  | moveControl hg hf hq _ => exact ofWord?_isSome_of_move hg hf hq
  | moveDescription hg hf hq _ => exact ofWord?_isSome_of_move hg hf (by omega)
  | probeKind hg hf _ =>
    unfold Instruction.ofWord? Instruction.ofSystemWord?
    rw [hg, hf]
    rfl

/-- A word of the table that is reserved is reserved for its operands: the other reasons are gaps
in the table. -/
theorem Reserved.operands {i : Instruction} (h : w.Reserved)
    (hi : Instruction.ofWord? w = some i) : w.ReservedOperands := by
  have hfits := Instruction.fits_of_ofWord? hi
  have hmem := i.family_mem
  rw [hfits.group, hfits.family] at hmem
  cases h with
  | opcode h => exact absurd hmem h
  | modifiers hg hf hq => exact .modifiers hg hf hq
  | complement hg hf hq => exact .complement hg hf hq
  | fieldRange hg hf hq hr => exact .fieldRange hg hf hq hr
  | moveDescription hg hf hq hc => exact .moveDescription hg hf hq hc
  | probeKind hg hf hq => exact .probeKind hg hf hq
  | fieldKind hg hf hq =>
    have hb := Instruction.ofBitFieldWord?_of_ofWord? hg hf hi
    unfold Instruction.ofBitFieldWord? at hb
    split at hb <;> first | contradiction | omega
  | shiftDistance hg hf hq =>
    have hs := Instruction.ofShiftAddWord?_of_ofWord? hg hf hi
    unfold Instruction.ofShiftAddWord? at hs
    split at hs <;> first | contradiction | omega
  | moveKind hg hf hq | tlbKind hg hf hq | otherKind hg hf hq =>
    have hs := Instruction.ofSystemWord?_of_ofWord? hg hi
    unfold Instruction.ofSystemWord? at hs
    split at hs <;> first | contradiction | omega
  | moveControl hg hf hc =>
    refine .moveControl hg hf ?_ hc
    have hs := Instruction.ofSystemWord?_of_ofWord? hg hi
    unfold Instruction.ofSystemWord? at hs
    split at hs <;> first | contradiction | omega

/-- The words that hold no instruction are the reserved ones, but for reserved operands. -/
theorem ofWord?_eq_none_iff :
    Instruction.ofWord? w = none ↔ w.Reserved ∧ ¬ w.ReservedOperands := by
  constructor
  · intro h
    refine ⟨Instruction.reserved_iff.mpr (by rw [h]; rfl), fun ho => ?_⟩
    simpa [h] using ho.isSome
  · rintro ⟨hr, ho⟩
    rcases hi : Instruction.ofWord? w with _ | i
    · rfl
    · exact absurd (hr.operands hi) ho

end InstructionWord

/-! ## Executing the words that have no mnemonic -/

variable {δ : Type} [Device δ]

namespace Session

variable {s : Session δ} {w : InstructionWord} {ia : BitVec 52}

omit [Device δ] in
theorem status_withInstruction (s : Session δ) (w : InstructionWord) :
    (s.withInstruction w).machine.registers.status = s.machine.registers.status := by
  rw [withInstruction, machine_withRegisters]

/-- In privileged mode it is the reserved words that raise an illegal instruction. -/
theorem obeyTrap?_illegal_iff (hp : s.machine.registers.status.privileged = true) :
    (s.obeyTrap? w ia).map Trap.code = some .illegalInstruction ↔ w.Reserved := by
  have hp : ¬ ((s.withInstruction w).machine.registers.status.privileged = false ∧
      w.Privileged) := by
    simp [status_withInstruction, hp]
  unfold obeyTrap?
  by_cases hr : w.Reserved
  · simp [Exec.execute_of_reserved ia hp hr, hr, InstructionWord.trap]
  · obtain ⟨i, hl, he⟩ := Exec.execute_of_not_reserved ia hp hr
    refine iff_of_false ?_ hr
    rw [he]
    -- an instruction that may be executed raises only what its operands raise
    split
    · simp
    · rename_i hx
      have hmem := (Exec.perform_onOperands w ia hl).code_mem hx
      intro h
      rw [Option.some.inj h] at hmem
      revert hmem
      decide

/-- A word that completes in any mode is an instruction. -/
theorem isSome_of_obeyTrap? (h : s.obeyTrap? w ia = none) : (Instruction.ofWord? w).isSome := by
  unfold obeyTrap? at h
  split at h
  · rename_i hx
    rcases hi : Instruction.ofWord? w with _ | i
    · rw [Exec.execute_apply, hi] at hx
      split at hx <;> cases hx
    · rfl
  · cases h

/-- A word is written as its eight digits if it raises an illegal instruction in privileged mode, in
whatever session, and not for its operands alone; and no word that completes in some session is
written as illegal. -/
theorem text_illegal_iff (w : InstructionWord) :
    (∀ (s : Session δ) ia, s.machine.registers.status.privileged = true →
      (w.text = "ILLEGAL 0x" ++ String.ofList w.hexDigits ↔
        (s.obeyTrap? w ia).map Trap.code = some .illegalInstruction ∧ ¬ w.ReservedOperands)) ∧
    ∀ (s : Session δ) ia, s.obeyTrap? w ia = none → ∀ x, w.text ≠ "ILLEGAL " ++ x := by
  refine ⟨fun s ia hp => ?_, fun s ia h x ht => ?_⟩
  · rw [obeyTrap?_illegal_iff hp, InstructionWord.text_eq_illegal_iff,
      InstructionWord.ofWord?_eq_none_iff]
  · simpa [InstructionWord.ofWord?_of_text_illegal ht] using isSome_of_obeyTrap? h

/-- A privileged machine that has done nothing. -/
def ofPrivileged : Session Empty where
  machine := {
    settings := {}
    registers := { Registers.cleared with status := .atStart 0 }
    tlb := .create 1
    memory := ⟨ByteStore.zeros 0x1000, .create 0⟩
    state := .running
    lastTrap := none
    counters := {}
    handlerEntry := none }
  log := #[]

/-- A word of no opcode, an addition with a reserved modifier, and no operation. -/
theorem ofPrivileged_illegal :
    ofPrivileged.machine.registers.status.privileged = true ∧
    ((ofPrivileged.obeyTrap? 0x30000000 0).map Trap.code = some .illegalInstruction ∧
      InstructionWord.text 0x30000000 = "ILLEGAL 0x30000000") ∧
    ((ofPrivileged.obeyTrap? 0x3C0BADF0 0).map Trap.code = some .illegalInstruction ∧
      InstructionWord.text 0x3C0BADF0 = "ILLEGAL 0x3c0badf0") ∧
    ((ofPrivileged.obeyTrap? 0x04500000 0).map Trap.code = some .illegalInstruction ∧
      InstructionWord.text 0x04500000 = "ADD R1, R0, R0" ∧
      InstructionWord.ReservedOperands 0x04500000) ∧
    (ofPrivileged.obeyTrap? 0 0 = none ∧ ∀ x, InstructionWord.text 0 ≠ "ILLEGAL " ++ x) := by
  have hill : (ofPrivileged.obeyTrap? 0x30000000 0).map Trap.code =
      some .illegalInstruction := by decide
  have hill' : (ofPrivileged.obeyTrap? 0x3C0BADF0 0).map Trap.code =
      some .illegalInstruction := by decide
  have hoperands : ¬ InstructionWord.ReservedOperands 0x30000000 := fun h =>
    absurd h.isSome (by decide)
  have hoperands' : ¬ InstructionWord.ReservedOperands 0x3C0BADF0 := fun h =>
    absurd h.isSome (by decide)
  exact ⟨rfl,
    ⟨hill, ((text_illegal_iff 0x30000000).1 ofPrivileged 0 rfl).mpr ⟨hill, hoperands⟩⟩,
    ⟨hill', ((text_illegal_iff 0x3C0BADF0).1 ofPrivileged 0 rfl).mpr ⟨hill', hoperands'⟩⟩,
    ⟨by decide, by decide +kernel, .modifiers (by decide) (by decide) (by decide)⟩,
    rfl, (text_illegal_iff 0).2 ofPrivileged 0 rfl⟩

end Session

end Processor64
