import Processor64.Proofs.Preview

/-!
# Operands in memory

An instruction that combines a register with an operand in memory can be split in two: a signed
load of the operand into a register `t` that is not in use, and the same operation of group 0 with
`t` in the operand's place (`InstructionWord.Splits`). Outside devices the two do what the one does
(`Session.combination_agrees_with_split`): what the load raises the combination raises as it is, an
overflow is one in both, and if both parts complete the machines differ in `t` only.
-/

namespace Processor64

variable {δ : Type}

namespace Registers

variable {s : Registers} {r q : Register}

theorem general_setGeneral_self (hr : r ≠ 0) (v : Word) : (s.setGeneral r v).general r = v := by
  rw [setGeneral, if_neg hr, general, if_neg hr]
  exact Vector.getElem_set_self r.isLt

theorem general_setGeneral_of_ne (h : r ≠ q) (v : Word) :
    (s.setGeneral r v).general q = s.general q := by
  have hne : r.toNat ≠ q.toNat := fun hn => h (BitVec.eq_of_toNat_eq hn)
  unfold general
  split
  · rfl
  · unfold setGeneral
    split
    · rfl
    · exact Vector.getElem_set_ne r.isLt q.isLt hne

theorem setGeneral_comm (h : r ≠ q) (v u : Word) :
    (s.setGeneral r v).setGeneral q u = (s.setGeneral q u).setGeneral r v := by
  have hne : r.toNat ≠ q.toNat := fun hn => h (BitVec.eq_of_toNat_eq hn)
  unfold setGeneral
  split
  · rfl
  · split
    · rfl
    · simp [Vector.set_comm _ _ hne]

end Registers

/-! ## Words -/

/-- The calculation with a register in the place of the operand in memory. -/
def Instruction.calculation? (t : Register) : Instruction → Option Instruction
  | memoryBinary op _ r _ m => some (binary op r r (.register t) m)
  | memoryCompare c _ r _ => some (compare c r r (.register t))
  | _ => none

/-- `load` loads, signed and into `t`, as many bytes as `direct` finds in memory, and `operate` is
the operation of `direct` on its register and `t`. -/
structure InstructionWord.Splits (direct load operate : InstructionWord) (t : Register) : Prop where
  direct_group : direct.group = 1
  direct_family : direct.family ∈ [1, 2, 3, 4, 5, 6]
  load_group : load.group = 1
  load_family : load.family = 8
  load_signed : load.qualifier.getLsbD 1 = true
  load_width : load.widthCode = direct.widthCode
  load_r : load.r = t
  operate_group : operate.group = 0
  operate_family : operate.family = direct.family
  operate_register : operate.qualifier.getLsbD 0 = false
  operate_low : operate.qualifier.getLsbD 1 = direct.qualifier.getLsbD 1
  operate_high : operate.qualifier.getLsbD 2 = direct.qualifier.getLsbD 2
  operate_r : operate.r = direct.r
  operate_b : operate.b = direct.r
  operate_a : operate.a = t

namespace InstructionWord.Splits

variable {direct load operate : InstructionWord} {t : Register}

theorem ofWord?_load (h : Splits direct load operate t) :
    Instruction.ofWord? load = some (.load true direct.width t load.memoryOperand) := by
  have hsigned : load.qualifier[1] = true := h.load_signed
  simp [Instruction.ofWord?, Instruction.ofMemoryWord?, h.load_group, h.load_family, hsigned,
    h.load_r, width, h.load_width]

theorem operand (h : Splits direct load operate t) : operate.operand = .register t := by
  have hregister : operate.qualifier[0] = false := h.operate_register
  simp [InstructionWord.operand, hregister, h.operate_a]

theorem modifiers (h : Splits direct load operate t) : operate.modifiers = direct.modifiers := by
  have hlow : operate.qualifier[1] = direct.qualifier[1] := h.operate_low
  have hhigh : operate.qualifier[2] = direct.qualifier[2] := h.operate_high
  simp [InstructionWord.modifiers, hlow, hhigh]

theorem compareCondition (h : Splits direct load operate t) :
    operate.compareCondition = direct.compareCondition := by
  have hbits : operate.qualifier.extractLsb' 1 2 = direct.qualifier.extractLsb' 1 2 := by
    ext i hi
    have hcases : i = 0 ∨ i = 1 := by omega
    rcases hcases with rfl | rfl
    · simpa using h.operate_low
    · simpa using h.operate_high
  simp [InstructionWord.compareCondition, hbits]

/-- `direct` is decoded to a combination, and `operate` to its calculation with `t`. -/
theorem decodes (h : Splits direct load operate t) : ∃ i j o,
    Instruction.ofWord? direct = some i ∧ Instruction.ofWord? operate = some j ∧
      i.combination? = some o ∧ i.calculation? t = some j ∧
      o.width = direct.width ∧ o.register = direct.r ∧ o.operand = direct.memoryOperand := by
  have hdirect : Instruction.ofWord? direct = Instruction.ofMemoryWord? direct := by
    simp [Instruction.ofWord?, h.direct_group]
  have hoperate : Instruction.ofWord? operate = Instruction.ofArithmeticWord? operate := by
    simp [Instruction.ofWord?, h.operate_group]
  have hfamily : (∃ op : BinaryOp, direct.family = op.family) ∨ direct.family = 6 := by
    have hmem := h.direct_family
    simp only [List.mem_cons, List.not_mem_nil, or_false] at hmem
    rcases hmem with hf | hf | hf | hf | hf | hf
    · exact .inl ⟨.add, hf⟩
    · exact .inl ⟨.subtract, hf⟩
    · exact .inl ⟨.and, hf⟩
    · exact .inl ⟨.or, hf⟩
    · exact .inl ⟨.xor, hf⟩
    · exact .inr hf
  rcases hfamily with ⟨op, hf⟩ | hf
  · refine ⟨.memoryBinary op direct.width direct.r direct.memoryOperand direct.modifiers,
      .binary op direct.r direct.r (.register t) direct.modifiers, _, ?_, ?_, rfl, rfl, rfl, rfl,
      rfl⟩
    · cases op <;> simp [hdirect, Instruction.ofMemoryWord?, hf, BinaryOp.family]
    · cases op <;> simp [hoperate, Instruction.ofArithmeticWord?, h.operate_family, hf,
        BinaryOp.family, h.operate_r, h.operate_b, h.operand, h.modifiers]
  · refine ⟨.memoryCompare direct.compareCondition direct.width direct.r direct.memoryOperand,
      .compare direct.compareCondition direct.r direct.r (.register t), _, ?_, ?_, rfl, rfl, rfl,
      rfl, rfl⟩
    · simp [hdirect, Instruction.ofMemoryWord?, hf]
    · simp [hoperate, Instruction.ofArithmeticWord?, h.operate_family, hf, h.operate_r,
        h.operate_b, h.operand, h.compareCondition]

end InstructionWord.Splits

/-! ## Accesses outside devices -/

namespace Memory

variable [Device δ] {m : Memory δ} {p : Word} {w : Width} {signed : Bool}

/-- Outside devices a read takes nothing, so a preview is one. -/
theorem preview_eq_read (h : m.deviceRead? p w = none) :
    m.preview p w signed = m.read p w signed := by
  rcases hp : p.inIoWindow
  · rw [preview_physical hp, read_physical hp]
  · rw [deviceRead?, if_pos hp] at h
    rw [preview_io hp, read_io hp, IoWindow.preview, IoWindow.read]
    rcases ht : m.io.target? p w with _ | (place | start)
    · rfl
    · rw [ht] at h
      cases h
    · rfl

theorem after_read (h : m.deviceRead? p w = none) {r : Reply (Memory δ) Word}
    (hr : m.read p w signed = .ok r) : r.after = m :=
  after_preview ((preview_eq_read h).trans hr)

end Memory

namespace Exec

variable [Device δ] {s s₁ s₂ : Session δ} {a p v : Word} {w : Width} {e : Trap}
  {word : InstructionWord} {ia : BitVec 52} {i j : Instruction} {o : Combination} {t : Register}

/-- Where no device is read, a preview traps as the load does. -/
theorem previewLoad_of_loadPlaced_error
    (hd : ∀ p, (s.machine.place a w .read).1 = .ok p → s.machine.memory.deviceRead? p w = none)
    (h : loadPlaced a w true s = .error e s₁) : previewLoad a w true s = .error e s₁ := by
  simp only [loadPlaced, bind_eq_error, translate_eq_ok, translate_eq_error, readMemory_apply,
    absorb_eq_error, count_apply, pure_apply, reduceCtorEq, and_false, exists_false, or_false] at h
  rcases h with ⟨hplace, rfl⟩ | ⟨p, _, ⟨hplace, rfl⟩, hread, rfl⟩
  · exact bind_eq_error.mpr (.inl (translate_eq_error.mpr ⟨hplace, rfl⟩))
  · refine bind_eq_error.mpr (.inr ⟨p, _, translate_eq_ok.mpr ⟨hplace, rfl⟩,
      bind_eq_error.mpr (.inl ?_)⟩)
    exact absorb_eq_error.mpr ⟨(Memory.preview_eq_read (hd p hplace)).trans hread, rfl⟩

/-- What a load finds, its preview finds, and the load is its preview counted. -/
theorem previewLoad_of_loadPlaced
    (hd : ∀ p, (s.machine.place a w .read).1 = .ok p → s.machine.memory.deviceRead? p w = none)
    (h : loadPlaced a w true s = .ok (p, v) s₁) :
    ∃ s₂, previewLoad a w true s = .ok (p, v) s₂ ∧
      s₂.machine = { s.machine with tlb := (s.machine.place a w .read).2 } ∧
      s₁.machine = { s₂.machine with
        counters := { s.machine.counters with loads := s.machine.counters.loads + 1 } } := by
  obtain ⟨reply, hplace, hread, rfl, hs₁⟩ := loadPlaced_ok h
  have hseen : s.machine.memory.preview p w true = .ok reply :=
    (Memory.preview_eq_read (hd p hplace)).trans hread
  rcases hpreview : previewLoad a w true s with ⟨⟨q, u⟩, s₂⟩ | ⟨e, s₂⟩
  · obtain ⟨seen, hq, hu, rfl, hs₂⟩ := previewLoad_ok hpreview
    obtain rfl : p = q := Except.ok.inj (hplace.symm.trans hq)
    obtain rfl : reply = seen := Except.ok.inj (hseen.symm.trans hu)
    refine ⟨s₂, rfl, hs₂, ?_⟩
    rw [hs₁, hs₂, Memory.after_read (hd p hplace) hread]
  · simp only [previewLoad, bind_eq_error, translate_eq_ok, translate_eq_error,
      previewMemory_apply, absorb_eq_error, pure_apply, reduceCtorEq, and_false, exists_false,
      or_false] at hpreview
    rcases hpreview with ⟨hq, -⟩ | ⟨q, _, ⟨hq, rfl⟩, hu, -⟩
    · cases hplace.symm.trans hq
    · obtain rfl : p = q := Except.ok.inj (hplace.symm.trans hq)
      cases hseen.symm.trans hu

theorem combine_of_previewLoad_error
    (h : previewLoad (o.operand.address s.machine.registers) o.width true s = .error e s₁) :
    combine word o s = .error e s₁ := by
  unfold combine
  rw [bind_of_eq_ok (operandAddress_apply _), bind_of_eq_ok (general_apply _)]
  exact bind_eq_error.mpr (.inl h)

/-- Once it has previewed its operand, a combination reads it or overflows. -/
theorem combine_of_previewLoad
    (h : previewLoad (o.operand.address s.machine.registers) o.width true s = .ok (p, v) s₁) :
    combine word o s =
      match o.result? s.machine.registers.status.checksOverflow
        (s.machine.registers.general o.register) v with
      | none => .error (word.trap .overflow) s₁
      | some v => (do commitLoad p o.width; result o.register v : Exec δ Flow) s₁ := by
  obtain ⟨-, -, -, -, hs₁⟩ := previewLoad_ok h
  unfold combine
  rw [bind_of_eq_ok (operandAddress_apply _), bind_of_eq_ok (general_apply _), bind_of_eq_ok h]
  dsimp only
  rw [bind_of_eq_ok status_apply, hs₁]
  generalize o.result? s.machine.registers.status.checksOverflow
    (s.machine.registers.general o.register) v = result?
  cases result? <;> rfl

/-- A combination computes with what a load would find, and counts the load if that stands. -/
theorem combine_of_loadPlaced (word : InstructionWord)
    (hd : ∀ p, (s.machine.place (o.operand.address s.machine.registers) o.width .read).1 = .ok p →
      s.machine.memory.deviceRead? p o.width = none)
    (h : loadPlaced (o.operand.address s.machine.registers) o.width true s = .ok (p, v) s₁) :
    ∃ u, match o.result? s.machine.registers.status.checksOverflow
        (s.machine.registers.general o.register) v with
      | none => combine word o s = .error (word.trap .overflow) u
      | some v => combine word o s = .ok .next u ∧ u.machine = { s₁.machine with
          registers := s₁.machine.registers.setGeneral o.register v } := by
  obtain ⟨s₂, hpreview, hs₂, hs₁⟩ := previewLoad_of_loadPlaced hd h
  obtain ⟨_, hplace, -⟩ := loadPlaced_ok h
  rw [combine_of_previewLoad hpreview]
  rcases o.result? s.machine.registers.status.checksOverflow
    (s.machine.registers.general o.register) v with _ | v'
  · exact ⟨s₂, rfl⟩
  · obtain ⟨s₃, hcommit⟩ := commitLoad_of_previewLoad_ok hpreview
    obtain ⟨reply, hread, hs₃⟩ := commitLoad_ok hcommit
    rw [hs₂] at hread
    refine ⟨s₃.withRegisters (s₃.machine.registers.setGeneral o.register v'),
      bind_of_eq_ok hcommit, ?_⟩
    rw [Session.machine_withRegisters, hs₃, hs₁, hs₂, Memory.after_read (hd p hplace) hread]

/-- The calculation of a combination computes with `t` what that does with its operand. -/
theorem perform_calculation? (ho : i.combination? = some o) (hj : i.calculation? t = some j) :
    perform word ia j s =
      match o.result? s.machine.registers.status.checksOverflow
        (s.machine.registers.general o.register) (s.machine.registers.general t) with
      | none => .error (word.trap .overflow) s
      | some v => .ok .next (s.withRegisters (s.machine.registers.setGeneral o.register v)) := by
  cases i <;> cases ho <;> cases hj
  case memoryBinary op w r x m =>
    show checkedResult word r (op.apply _ _ m _) s = _
    dsimp only
    generalize op.apply _ _ m _ = v
    cases v <;> rfl
  case memoryCompare c w r x => rfl

/-- A word runs as the calculation it was split into. -/
theorem execute_calculation? (hj : Instruction.ofWord? word = some j)
    (ho : i.combination? = some o) (hc : i.calculation? t = some j) (hl : i.isLegal = true) :
    execute word ia s = perform word ia j s := by
  have hp : j.isPrivileged = false := by
    cases i <;> cases hc <;> rfl
  have hlegal : j.isLegal = true := by
    cases i <;> cases hc <;> exact hl
  exact execute_of_unprivileged hj hlegal hp

theorem execute_load {signed : Bool} {x : MemoryOperand}
    (hi : Instruction.ofWord? word = some (.load signed w t x)) : execute word ia s =
      (do result t (← load (x.address s.machine.registers) w signed) : Exec δ Flow) s := by
  have hexecute : execute word ia s = perform word ia (.load signed w t x) s :=
    execute_of_unprivileged hi rfl rfl
  rw [hexecute]
  exact bind_of_eq_ok (operandAddress_apply x)

end Exec

namespace Session

variable [Device δ]

/-- The word `direct` does in `s` what `load` and then `operate` do, which use `t` besides. -/
inductive AgreesWithSplit (s : Session δ) (direct load operate : InstructionWord) (t : Register)
    (ia ia' : BitVec 52) : Prop where
  | load_traps {e : Trap} {u : Session δ} (loads : Exec.execute load ia s = .error e u)
    (combines : Exec.execute direct ia s = .error e u)
  | operate_traps {flow : Flow} {e e' : Trap} {s₁ u u' : Session δ}
    (loads : Exec.execute load ia s = .ok flow s₁)
    (operates : Exec.execute operate ia' s₁ = .error e u)
    (combines : Exec.execute direct ia s = .error e' u') (code : e'.code = e.code)
  | completes {flow flow' : Flow} {s₁ s₂ u : Session δ} {v : Word}
    (loads : Exec.execute load ia s = .ok flow s₁)
    (operates : Exec.execute operate ia' s₁ = .ok flow' s₂)
    (combines : Exec.execute direct ia s = .ok flow' u)
    (register : u.machine.registers.general direct.r = s₂.machine.registers.general direct.r)
    (machine : s₂.machine = { u.machine with registers := u.machine.registers.setGeneral t v })

/-- Outside devices, a legal combination agrees with a load of its operand from the same address
and the calculation with the register that was loaded. -/
theorem combination_agrees_with_split {s : Session δ} {direct load operate : InstructionWord}
    {t : Register} (h : InstructionWord.Splits direct load operate t)
    (hl : ∀ i, Instruction.ofWord? direct = some i → i.isLegal = true)
    (ht : t ≠ 0) (hr : t ≠ direct.r)
    (ha : load.memoryOperand.address s.machine.registers =
      direct.memoryOperand.address s.machine.registers)
    (hd : ∀ p, (s.machine.place (direct.memoryOperand.address s.machine.registers) direct.width
      .read).1 = .ok p → s.machine.memory.deviceRead? p direct.width = none)
    (ia ia' : BitVec 52) : s.AgreesWithSplit direct load operate t ia ia' := by
  obtain ⟨i, j, o, hi, hj, ho, hcalc, hw, hreg, hx⟩ := h.decodes
  have hlegal := hl i hi
  have hdirect : Exec.execute direct ia s = Exec.combine direct o s := by
    rw [Exec.execute_combination hi ho, if_pos hlegal]
  have hload : Exec.execute load ia s = _ := Exec.execute_load h.ofWord?_load
  rw [ha] at hload
  rw [← hw, ← hx] at hd hload
  rcases hplaced : Exec.loadPlaced (o.operand.address s.machine.registers) o.width true s with
    ⟨⟨p, v⟩, s₁⟩ | ⟨e, u⟩
  · -- the load completes, and the calculation finds its value in `t`
    obtain ⟨u, hu⟩ := Exec.combine_of_loadPlaced direct hd hplaced
    obtain ⟨_, -, -, -, hs₁⟩ := Exec.loadPlaced_ok hplaced
    have hregisters : s₁.machine.registers = s.machine.registers := by rw [hs₁]
    have hloads := hload.trans (Exec.bind_of_eq_ok (Exec.bind_of_eq_ok hplaced))
    rw [Exec.result_apply, hregisters] at hloads
    have hoperate : Exec.execute operate ia'
        (s₁.withRegisters (s.machine.registers.setGeneral t v)) = _ :=
      (Exec.execute_calculation? hj ho hcalc hlegal).trans (Exec.perform_calculation? ho hcalc)
    simp only [machine_withRegisters, Registers.status_setGeneral, hreg,
      Registers.general_setGeneral_of_ne hr, Registers.general_setGeneral_self ht] at hoperate
    rw [← hdirect, hreg, hregisters] at hu
    generalize o.result? s.machine.registers.status.checksOverflow
      (s.machine.registers.general direct.r) v = result? at hu hoperate
    rcases result? with _ | v'
    · exact .operate_traps hloads hoperate hu rfl
    · obtain ⟨hcombines, hm⟩ := hu
      refine .completes (v := v) hloads hoperate hcombines ?_ ?_
      · rw [hm, machine_withRegisters, Registers.setGeneral_comm hr,
          Registers.general_setGeneral_of_ne hr]
      · rw [hm, machine_withRegisters, machine_withRegisters, Registers.setGeneral_comm hr]
  · have hpreview := Exec.previewLoad_of_loadPlaced_error hd hplaced
    have hloads := hload.trans
      (Exec.bind_eq_error.mpr (.inl (Exec.bind_eq_error.mpr (.inl hplaced))))
    exact .load_traps hloads (hdirect.trans (Exec.combine_of_previewLoad_error hpreview))

/-- A default machine with ten in register 1 and the word -3 at address 0x100. -/
def ofDebt : Session Empty :=
  let s := (⟨.create {}, #[]⟩ : Session Empty).reset
  let s := (s.perform (.hostStore 0x100 .word (-3))).2
  (s.perform (.setGeneral 1 10)).2

/-- Adding from memory is loading into register 5 and adding that. -/
theorem ofDebt_agrees_with_split :
    (∃ u, Exec.execute (.pack 1 1 1 0 0 0x4100) 0 ofDebt = .ok .next u ∧
      u.machine.registers.general 1 = 7) ∧
    ofDebt.AgreesWithSplit (.pack 1 1 1 0 0 0x4100) (.pack 1 8 5 2 0 0x4100)
      (.pack 0 1 1 0 1 0xA00) 5 0 4 := by
  have hi : Instruction.ofWord? (.pack 1 1 1 0 0 0x4100) =
      some (.memoryBinary .add .word 1 (.displaced 0 0x100) ⟨false, false⟩) := by rfl
  have hplace : (ofDebt.machine.place 0x100 .word .read).1 = .ok 0x100 := by rfl
  have hsplits : InstructionWord.Splits (.pack 1 1 1 0 0 0x4100) (.pack 1 8 5 2 0 0x4100)
      (.pack 0 1 1 0 1 0xA00) 5 := by constructor <;> decide
  refine ⟨⟨_, by rfl, by rfl⟩, combination_agrees_with_split hsplits (fun i h => ?_) (by decide)
    (by decide) rfl (fun p hp => ?_) 0 4⟩
  · obtain rfl := Option.some.inj (hi.symm.trans h)
    rfl
  · obtain rfl := Except.ok.inj (hplace.symm.trans hp)
    rfl

end Session

end Processor64
