import Processor64.Proofs.Causes

/-!
# Which words may be executed

Whether a word may be executed is told by the word alone, from its group, family and qualifier and
in few families by more (`InstructionWord.Reserved`). A cycle that has fetched a word raises a
privilege violation exactly if the word is privileged and the mode is not, and else an illegal
instruction exactly if the word is reserved (`words_judged`). Either is raised before the
instruction has looked at its operands.
-/

namespace Processor64

namespace InstructionWord

/-- The families of a group that are in the table of opcodes. -/
def families : Nat → List Nat
  | 0 => [0, 1, 2, 3, 4, 5, 6, 7, 8, 9, 10]
  | 1 => [1, 2, 3, 4, 5, 6, 8, 9, 10, 11]
  | 2 => [1, 2, 3, 4, 5, 6]
  | _ => [1, 2, 3, 4, 5, 6, 7, 14, 15]

/-- The word is no instruction, or one whose operands are reserved. -/
inductive Reserved (w : InstructionWord) : Prop where
  | opcode (h : w.family.toNat ∉ families w.group.toNat)
  | modifiers (group : w.group.toNat ≤ 1) (family : w.family.toNat = 1 ∨ w.family.toNat = 2)
    (qualifier : w.qualifier[1] = true ∨ w.qualifier[2] = true)
  | complement (group : w.group.toNat ≤ 1) (family : w.family.toNat = 5)
    (qualifier : w.qualifier[1] = true)
  | fieldKind (group : w.group.toNat = 0) (family : w.family.toNat = 7)
    (qualifier : 5 ≤ w.qualifier.toNat)
  | fieldRange (group : w.group.toNat = 0) (family : w.family.toNat = 7)
    (qualifier : w.qualifier.toNat ≤ 3)
    (range : 64 < w.fieldPosition.toNat + (w.fieldLast.toNat + 1))
  | shiftDistance (group : w.group.toNat = 0) (family : w.family.toNat = 8)
    (qualifier : w.qualifier.toNat = 3 ∨ w.qualifier.toNat = 7)
  | moveKind (group : w.group.toNat = 3) (family : w.family.toNat = 1)
    (qualifier : 2 ≤ w.qualifier.toNat)
  | moveControl (group : w.group.toNat = 3) (family : w.family.toNat = 1)
    (control : ∀ c : ControlRegister, c.number ≠ w.b)
  | moveDescription (group : w.group.toNat = 3) (family : w.family.toNat = 1)
    (qualifier : w.qualifier.toNat = 1) (control : w.b = ControlRegister.cpuInfo.number)
  | probeKind (group : w.group.toNat = 3) (family : w.family.toNat = 3)
    (qualifier : w.qualifier.toNat % 4 = 3)
  | tlbKind (group : w.group.toNat = 3) (family : w.family.toNat = 4)
    (qualifier : 3 ≤ w.qualifier.toNat)
  | otherKind (group : w.group.toNat = 3) (family : w.family.toNat = 5 ∨ w.family.toNat = 6)
    (qualifier : 2 ≤ w.qualifier.toNat)

/-- The families of group 3 that are privileged whatever their qualifier, and the move to a control
register. -/
def Privileged (w : InstructionWord) : Prop :=
  w.group.toNat = 3 ∧
    (w.family.toNat ∈ [2, 4, 6, 7, 15] ∨ w.family.toNat = 1 ∧ w.qualifier.toNat = 1)

/-- The privileged words, by their fields. -/
theorem isPrivileged_iff (w : InstructionWord) : w.isPrivileged = true ↔ w.Privileged := by
  have hg : w.group = 3 ↔ w.group.toNat = 3 := BitVec.toNat_inj.symm
  have hq : w.qualifier = 1 ↔ w.qualifier.toNat = 1 := BitVec.toNat_inj.symm
  simp only [isPrivileged, Privileged, Bool.and_eq_true, beq_iff_eq, hg]
  generalize w.family.toNat = f
  refine and_congr_right fun _ => ?_
  split <;> simp_all

end InstructionWord

theorem BinaryOp.accepts_eq_false {op : BinaryOp} {m : Modifiers} : op.accepts m = false ↔
    (op = add ∨ op = subtract) ∧ (m.complement = true ∨ m.negate = true) ∨
      op = xor ∧ m.complement = true := by
  rcases m with ⟨_ | _, _ | _⟩ <;> cases op <;> decide

namespace ControlRegister

theorem ofNumber?_number (c : ControlRegister) : ofNumber? c.number.toNat = some c := by
  cases c <;> rfl

/-- A control register has the number it is found by. -/
theorem number_of_ofNumber? {n : BitVec 4} {c : ControlRegister}
    (h : ofNumber? n.toNat = some c) : c.number = n := by
  have hc := List.find?_some h
  rw [beq_iff_eq] at hc
  exact BitVec.eq_of_toNat_eq hc

/-- A number without a register is that of no register. -/
theorem number_ne_of_ofNumber? {n : BitVec 4} (h : ofNumber? n.toNat = none)
    (c : ControlRegister) : c.number ≠ n := by
  rintro rfl
  rw [ofNumber?_number] at h
  cases h

end ControlRegister

namespace Instruction

variable {w : InstructionWord} {i : Instruction}

/-- Every instruction is of a family that its group has. -/
theorem family_mem (i : Instruction) :
    i.family.toNat ∈ InstructionWord.families i.group.toNat := by
  cases i
  case binary op _ _ _ _ | memoryBinary op _ _ _ _ =>
    cases op <;> exact List.mem_of_elem_eq_true rfl
  all_goals exact List.mem_of_elem_eq_true rfl

/-! ## Reserved words are no instructions, or none that may be executed -/

theorem reserved_of_ofBitFieldWord? (hg : w.group.toNat = 0) (hf : w.family.toNat = 7)
    (h : (ofBitFieldWord? w).any isLegal = false) : w.Reserved := by
  unfold ofBitFieldWord? at h
  split at h
  case h_5 => cases h
  case h_6 h₀ h₁ h₂ h₃ h₄ =>
    refine .fieldKind hg hf ?_
    simp only [imp_false] at h₀ h₁ h₂ h₃ h₄
    omega
  all_goals
    have hrange : 64 < w.fieldPosition.toNat + (w.fieldLast.toNat + 1) := by
      simpa [isLegal, BitField.isValid] using h
    exact .fieldRange hg hf (by omega) hrange

theorem reserved_of_ofShiftAddWord? (hg : w.group.toNat = 0) (hf : w.family.toNat = 8)
    (h : (ofShiftAddWord? w).any isLegal = false) : w.Reserved := by
  have hlt := w.qualifier.isLt
  unfold ofShiftAddWord? at h
  split at h
  case h_7 h₀ h₁ h₂ h₄ h₅ h₆ =>
    refine .shiftDistance hg hf ?_
    simp only [imp_false] at h₀ h₁ h₂ h₄ h₅ h₆
    omega
  all_goals cases h

theorem reserved_of_accepts (op : BinaryOp) (hg : w.group.toNat ≤ 1)
    (hf : w.family.toNat = op.family.toNat) (h : op.accepts w.modifiers = false) :
    w.Reserved := by
  rcases BinaryOp.accepts_eq_false.mp h with ⟨rfl | rfl, hm⟩ | ⟨rfl, hm⟩
  · exact .modifiers hg (.inl hf) hm
  · exact .modifiers hg (.inr hf) hm
  · exact .complement hg hf hm

theorem reserved_of_ofArithmeticWord? (hg : w.group.toNat = 0)
    (h : (ofArithmeticWord? w).any isLegal = false) : w.Reserved := by
  unfold ofArithmeticWord? at h
  split at h
  case h_2 hf => exact reserved_of_accepts .add (by omega) hf h
  case h_3 hf => exact reserved_of_accepts .subtract (by omega) hf h
  case h_6 hf => exact reserved_of_accepts .xor (by omega) hf h
  case h_8 hf => exact reserved_of_ofBitFieldWord? hg hf h
  case h_9 hf => exact reserved_of_ofShiftAddWord? hg hf h
  case h_12 => exact .opcode (by rw [hg]; simp_all [InstructionWord.families])
  all_goals cases h

theorem reserved_of_ofMemoryWord? (hg : w.group.toNat = 1)
    (h : (ofMemoryWord? w).any isLegal = false) : w.Reserved := by
  unfold ofMemoryWord? at h
  split at h
  case h_1 hf => exact reserved_of_accepts .add (by omega) hf h
  case h_2 hf => exact reserved_of_accepts .subtract (by omega) hf h
  case h_5 hf => exact reserved_of_accepts .xor (by omega) hf h
  case h_11 => exact .opcode (by rw [hg]; simp_all [InstructionWord.families])
  all_goals cases h

theorem reserved_of_ofBranchWord? (hg : w.group.toNat = 2)
    (h : (ofBranchWord? w).any isLegal = false) : w.Reserved := by
  unfold ofBranchWord? at h
  split at h
  case h_7 => exact .opcode (by rw [hg]; simp_all [InstructionWord.families])
  all_goals cases h

theorem reserved_of_ofSystemWord? (hg : w.group.toNat = 3)
    (h : (ofSystemWord? w).any isLegal = false) : w.Reserved := by
  unfold ofSystemWord? at h
  split at h
  case h_1 hf hq =>
    refine .moveControl hg hf (ControlRegister.number_ne_of_ofNumber? ?_)
    simpa [isLegal] using h
  case h_2 hf hq =>
    rcases hc : ControlRegister.ofNumber? w.b.toNat with _ | c
    · exact .moveControl hg hf (ControlRegister.number_ne_of_ofNumber? hc)
    · have hinfo : c = .cpuInfo := by simpa [isLegal, hc] using h
      rw [hinfo] at hc
      exact .moveDescription hg hf hq (ControlRegister.number_of_ofNumber? hc).symm
  case h_4 hf =>
    refine .probeKind hg hf ?_
    have hlt := Nat.mod_lt w.qualifier.toNat (show 0 < 4 by decide)
    generalize w.qualifier.toNat % 4 = k at h hlt
    obtain rfl | rfl | rfl | rfl : k = 0 ∨ k = 1 ∨ k = 2 ∨ k = 3 := by omega
    case inr.inr.inr => rfl
    all_goals cases h
  case h_16 =>
    by_cases hf : w.family.toNat ∈ [1, 4, 5, 6]
    · simp only [List.mem_cons, List.not_mem_nil, or_false] at hf
      rcases hf with hf | hf | hf | hf
      · have hq : w.qualifier.toNat ≠ 0 ∧ w.qualifier.toNat ≠ 1 := by simp_all
        exact .moveKind hg hf (by omega)
      · have hq : w.qualifier.toNat ≠ 0 ∧ w.qualifier.toNat ≠ 1 ∧ w.qualifier.toNat ≠ 2 := by
          simp_all
        exact .tlbKind hg hf (by omega)
      · have hq : w.qualifier.toNat ≠ 0 ∧ w.qualifier.toNat ≠ 1 := by simp_all
        exact .otherKind hg (.inl hf) (by omega)
      · have hq : w.qualifier.toNat ≠ 0 ∧ w.qualifier.toNat ≠ 1 := by simp_all
        exact .otherKind hg (.inr hf) (by omega)
    · exact .opcode (by rw [hg]; simp_all [InstructionWord.families])
  all_goals cases h

/-- A word without a legal instruction is reserved. -/
theorem reserved_of_ofWord? (h : (ofWord? w).any isLegal = false) : w.Reserved := by
  have hlt := w.group.isLt
  unfold ofWord? at h
  split at h
  case h_1 hg => exact reserved_of_ofArithmeticWord? hg h
  case h_2 hg => exact reserved_of_ofMemoryWord? hg h
  case h_3 hg => exact reserved_of_ofBranchWord? hg h
  case h_4 h₀ h₁ h₂ =>
    refine reserved_of_ofSystemWord? ?_ h
    simp only [imp_false] at h₀ h₁ h₂
    omega

theorem ofWord?_of_binary (op : BinaryOp) (hg : w.group.toNat ≤ 1)
    (hf : w.family.toNat = op.family.toNat) (hi : ofWord? w = some i) :
    i.isLegal = op.accepts w.modifiers := by
  unfold ofWord? ofArithmeticWord? ofMemoryWord? at hi
  rw [hf] at hi
  obtain hg | hg : w.group.toNat = 0 ∨ w.group.toNat = 1 := by omega
  all_goals
    rw [hg] at hi
    cases op <;> obtain rfl := Option.some.inj hi <;> rfl

theorem ofBitFieldWord?_of_ofWord? (hg : w.group.toNat = 0) (hf : w.family.toNat = 7)
    (hi : ofWord? w = some i) : ofBitFieldWord? w = some i := by
  unfold ofWord? ofArithmeticWord? at hi
  rw [hg, hf] at hi
  exact hi

theorem ofShiftAddWord?_of_ofWord? (hg : w.group.toNat = 0) (hf : w.family.toNat = 8)
    (hi : ofWord? w = some i) : ofShiftAddWord? w = some i := by
  unfold ofWord? ofArithmeticWord? at hi
  rw [hg, hf] at hi
  exact hi

/-- A reserved word holds no legal instruction. -/
theorem not_legal_of_reserved (h : w.Reserved) (hi : ofWord? w = some i) :
    i.isLegal = false := by
  have hfits := fits_of_ofWord? hi
  have hmem := i.family_mem
  rw [hfits.group, hfits.family] at hmem
  cases h with
  | opcode h => exact absurd hmem h
  | modifiers hg hf hq =>
    rcases hf with hf | hf
    · rw [ofWord?_of_binary .add hg hf hi]
      exact BinaryOp.accepts_eq_false.mpr (.inl ⟨.inl rfl, hq⟩)
    · rw [ofWord?_of_binary .subtract hg hf hi]
      exact BinaryOp.accepts_eq_false.mpr (.inl ⟨.inr rfl, hq⟩)
  | complement hg hf hq =>
    rw [ofWord?_of_binary .xor hg hf hi]
    exact BinaryOp.accepts_eq_false.mpr (.inr ⟨rfl, hq⟩)
  | fieldKind hg hf hq =>
    have hb := ofBitFieldWord?_of_ofWord? hg hf hi
    unfold ofBitFieldWord? at hb
    split at hb <;> first | contradiction | omega
  | fieldRange hg hf hq hrange =>
    have hb := ofBitFieldWord?_of_ofWord? hg hf hi
    unfold ofBitFieldWord? at hb
    split at hb
    case h_5 => omega
    all_goals
      cases hb
      try simpa [isLegal, BitField.isValid] using hrange
  | shiftDistance hg hf hq =>
    have hs := ofShiftAddWord?_of_ofWord? hg hf hi
    unfold ofShiftAddWord? at hs
    split at hs <;> first | contradiction | omega
  | moveKind hg hf hq | tlbKind hg hf hq | otherKind hg hf hq =>
    have hs := ofSystemWord?_of_ofWord? hg hi
    unfold ofSystemWord? at hs
    split at hs <;> first | contradiction | omega
  | moveControl hg hf hcontrol =>
    have hs := ofSystemWord?_of_ofWord? hg hi
    have hnone : ControlRegister.ofNumber? w.b.toNat = none := by
      rw [Option.eq_none_iff_forall_ne_some]
      exact fun c hc => hcontrol c (ControlRegister.number_of_ofNumber? hc)
    unfold ofSystemWord? at hs
    split at hs
    case h_1 | h_2 =>
      cases hs
      simp [isLegal, hnone]
    all_goals first | contradiction | omega
  | moveDescription hg hf hq hcontrol =>
    have hs := ofSystemWord?_of_ofWord? hg hi
    unfold ofSystemWord? at hs
    split at hs
    case h_2 =>
      cases hs
      rw [hcontrol]
      rfl
    all_goals first | contradiction | omega
  | probeKind hg hf hq =>
    have hs := ofSystemWord?_of_ofWord? hg hi
    unfold ofSystemWord? at hs
    split at hs
    case h_4 =>
      cases hs
      rw [hq]
      rfl
    all_goals first | contradiction | omega

/-- A word is reserved exactly if it is no instruction that may be executed. -/
theorem reserved_iff : w.Reserved ↔ (ofWord? w).any isLegal = false := by
  refine ⟨fun h => ?_, reserved_of_ofWord?⟩
  rcases hi : ofWord? w with _ | i
  · rfl
  · exact not_legal_of_reserved h hi

end Instruction

/-! ## Cycles -/

variable {δ : Type} [Device δ]

namespace Exec

variable {word : InstructionWord} (ia : BitVec 52) {s : Session δ}

/-- A privileged word is refused to an unprivileged program. -/
theorem execute_of_privileged (hp : word.Privileged)
    (hu : s.machine.registers.status.privileged = false) :
    execute word ia s = .error (word.trap .privilegeViolation) s := by
  simp [execute_apply, word.isPrivileged_iff.mpr hp, hu]

theorem execute_of_not_privileged
    (hp : ¬ (s.machine.registers.status.privileged = false ∧ word.Privileged)) :
    execute word ia s = match Instruction.ofWord? word with
      | none => .error (word.trap .illegalInstruction) s
      | some i =>
        if i.isLegal then perform word ia i s
        else .error (word.trap .illegalInstruction) s := by
  have hc : ¬ (word.isPrivileged && !s.machine.registers.status.privileged) = true := by
    rwa [Bool.and_eq_true, word.isPrivileged_iff, Bool.not_eq_true', and_comm]
  rw [execute_apply]
  exact if_neg hc

/-- A reserved word is illegal to a program that may run it. -/
theorem execute_of_reserved
    (hp : ¬ (s.machine.registers.status.privileged = false ∧ word.Privileged))
    (hr : word.Reserved) : execute word ia s = .error (word.trap .illegalInstruction) s := by
  rw [execute_of_not_privileged ia hp]
  rcases hi : Instruction.ofWord? word with _ | i
  · rfl
  · simp [Instruction.not_legal_of_reserved hr hi]

/-- A word that is neither runs its instruction. -/
theorem execute_of_not_reserved
    (hp : ¬ (s.machine.registers.status.privileged = false ∧ word.Privileged))
    (hr : ¬ word.Reserved) :
    ∃ i : Instruction, i.isLegal = true ∧ execute word ia s = perform word ia i s := by
  rw [execute_of_not_privileged ia hp]
  rw [Instruction.reserved_iff, Bool.not_eq_false, Option.any_eq_true] at hr
  obtain ⟨i, hi, hl⟩ := hr
  exact ⟨i, hl, by simp [hi, hl]⟩

end Exec

namespace Session

variable {s s₁ : Session δ} {word : InstructionWord}

/-- What a cycle makes of the word that it has fetched in `s₁`: it refuses it for the privilege, or
else for the word alone, and then has not looked any further. -/
structure Judges (s : Session δ) (word : InstructionWord) (s₁ : Session δ) : Prop where
  privilege : s.trap? = some (word.trap .privilegeViolation) ↔
    s.machine.registers.status.privileged = false ∧ word.Privileged
  illegal : ¬ (s.machine.registers.status.privileged = false ∧ word.Privileged) →
    (s.trap? = some (word.trap .illegalInstruction) ↔ word.Reserved)
  refusal : ∀ t, s.trap? = some t → t.code = .privilegeViolation ∨ t.code = .illegalInstruction →
    t = word.trap t.code ∧ s.cycle.2.machine.tlb = s₁.machine.tlb ∧
      s.cycle.2.machine.memory = s₁.machine.memory

omit [Device δ] in
theorem takeTrap_refusal (s : Session δ) (t : Trap) (ia : BitVec 52) :
    (s.takeTrap t ia).2.machine.tlb = s.machine.tlb ∧
      (s.takeTrap t ia).2.machine.memory = s.machine.memory := by
  rcases takeTrap_cases s t ia with ⟨_, _, -, -, -, -, hm⟩ | ⟨-, hm⟩ <;> rw [hm] <;>
    exact ⟨rfl, rfl⟩

/-- A fetched word is judged before anything else is done. -/
theorem judges (hf : Exec.fetch s.machine.registers.status.location s.begun = .ok word s₁) :
    s.Judges word s₁ := by
  obtain ⟨_, _, -, -, -, hs₁⟩ := Exec.fetch_ok hf
  obtain ⟨ht, hc⟩ := cycle_of_fetch hf
  have hstatus : (s₁.withInstruction word).machine.registers.status =
      s.machine.registers.status := by
    rw [withInstruction, machine_withRegisters, hs₁]
    rfl
  by_cases hp : s.machine.registers.status.privileged = false ∧ word.Privileged
  · have he := Exec.execute_of_privileged s.machine.registers.status.address
      (s := s₁.withInstruction word) hp.2 (by rw [hstatus]; exact hp.1)
    simp only [obeyTrap?, obey, he] at ht hc
    refine ⟨⟨fun _ => hp, fun _ => ht⟩, fun h => absurd hp h, fun t htrap _ => ?_⟩
    obtain rfl := Option.some.inj (ht.symm.trans htrap)
    rw [hc]
    exact ⟨rfl, takeTrap_refusal _ _ _⟩
  · rw [← hstatus] at hp
    by_cases hr : word.Reserved
    · have he := Exec.execute_of_reserved s.machine.registers.status.address hp hr
      simp only [obeyTrap?, obey, he] at ht hc
      rw [hstatus] at hp
      refine ⟨⟨fun h => ?_, fun h => absurd h hp⟩, fun _ => ⟨fun _ => hr, fun _ => ht⟩,
        fun t htrap _ => ?_⟩
      · have hcode := congrArg Trap.code (Option.some.inj (ht.symm.trans h))
        cases hcode
      · obtain rfl := Option.some.inj (ht.symm.trans htrap)
        rw [hc]
        exact ⟨rfl, takeTrap_refusal _ _ _⟩
    · obtain ⟨i, hl, he⟩ := Exec.execute_of_not_reserved
        s.machine.registers.status.address hp hr
      -- a trap of an instruction that may be executed is no refusal
      have hcode : ∀ t, s.trap? = some t → t.code ∈ TrapCode.ofOperands := by
        intro t htrap
        rw [ht, obeyTrap?, he] at htrap
        split at htrap
        · cases htrap
        · rename_i hx
          obtain rfl := Option.some.inj htrap
          exact (Exec.perform_onOperands word _ hl).code_mem hx
      have hnone : ∀ code ∈ [TrapCode.privilegeViolation, .illegalInstruction],
          code ∉ TrapCode.ofOperands := by decide
      rw [hstatus] at hp
      refine ⟨⟨fun h => ?_, fun h => absurd h hp⟩, fun _ => ⟨fun h => ?_, fun h => absurd h hr⟩,
        fun t htrap h => ?_⟩
      · exact absurd (hcode _ h) (hnone _ (by simp [InstructionWord.trap]))
      · exact absurd (hcode _ h) (hnone _ (by simp [InstructionWord.trap]))
      · exact absurd (hcode t htrap) (hnone _ (by simpa using h))

/-- A trap for the word tells a group and a family, of which one is not zero: the word of both is
no operation, which may always be executed. -/
theorem informs_of_illegal {t : Trap} (ht : s.trap? = some t) (hc : t.code = .illegalInstruction) :
    ¬ (t.info2 = 0 ∧ t.info3 = 0) := by
  rintro ⟨hgroup, hfamily⟩
  rcases hf : Exec.fetch s.machine.registers.status.location s.begun with ⟨word, s₁⟩ | ⟨u, s₁⟩
  · have hj := judges hf
    obtain ⟨htrap, -⟩ := hj.refusal t ht (.inr hc)
    rw [htrap, hc] at ht
    rw [htrap] at hgroup hfamily
    have hg := congrArg BitVec.toNat hgroup
    have hz := congrArg BitVec.toNat hfamily
    simp only [InstructionWord.trap, BitVec.toNat_setWidth_of_le (by decide : 2 ≤ 32),
      BitVec.toNat_setWidth_of_le (by decide : 4 ≤ 32), BitVec.ofNat_eq_ofNat,
      BitVec.toNat_ofNat, Nat.zero_mod] at hg hz
    have hnop : Instruction.ofWord? word = some .nop := by
      simp only [Instruction.ofWord?, hg, Instruction.ofArithmeticWord?, hz]
    have hr := (hj.illegal fun hp => by have := hp.2.1; omega).mp ht
    simpa [hnop, Instruction.isLegal] using Instruction.reserved_iff.mp hr
  · have hmem := code_mem_of_fetch_error hf ht
    rw [hc] at hmem
    revert hmem
    decide

/-- Every cycle judges the word that it fetches, and none raises an illegal instruction as the
register file does, with an index and nothing else. -/
theorem words_judged (s : Session δ) :
    (∀ word s₁, Exec.fetch s.machine.registers.status.location s.begun = .ok word s₁ →
      s.Judges word s₁) ∧
    ∀ t, s.trap? = some t → t.code = .illegalInstruction → ¬ (t.info2 = 0 ∧ t.info3 = 0) :=
  ⟨fun _ _ hf => judges hf, fun _ => informs_of_illegal⟩

/-- A machine in user mode before the word of an addition that is modified. -/
def ofModified : Session Empty where
  machine := {
    settings := {}
    registers := Registers.cleared
    tlb := .create 1
    memory := ⟨(ByteStore.zeros 0x8000).withProgram 0 [0x04500000], .create 0⟩
    state := .running
    lastTrap := none
    counters := {}
    handlerEntry := none }
  log := #[]

theorem ofModified_judged :
    ofModified.trap? = some (InstructionWord.trap 0x04500000 .illegalInstruction) ∧
      ofModified.Judges 0x04500000 ofModified.begun ∧
      ¬ ((InstructionWord.trap 0x04500000 .illegalInstruction).info2 = 0 ∧
        (InstructionWord.trap 0x04500000 .illegalInstruction).info3 = 0) :=
  have ht : ofModified.trap? = some (InstructionWord.trap 0x04500000 .illegalInstruction) := by
    decide
  ⟨ht, (words_judged ofModified).1 _ _ (by rfl), (words_judged ofModified).2 _ ht rfl⟩

end Session

end Processor64
