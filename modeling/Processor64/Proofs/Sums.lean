import Mathlib.Algebra.GroupWithZero.Nat
import Mathlib.Algebra.Ring.Int.Defs
import Processor64.Proofs.Branches
import Processor64.Proofs.Causes

/-!
# Sums and differences

A sum or a difference has an exact result in the integers (`BinaryOp.sum?`), and the word that an
instruction computes is decided by that result alone: the word of the result, or none if it is
checked and no word holds it (`BinaryOp.apply_of_sum?`). Which instructions are sums, of what and
into which register, is said in integers too (`Instruction.Sums`): the second operand stands in a
register, in the word or in memory, and the first may be shifted before.

The cycle of a sum retires with its exact result or overflows, and if overflow is not checked it
retires with the result modulo 2^64. No other cycle overflows (`sums_exact_or_overflow`).
-/

namespace Processor64

variable {δ : Type}

/-! ## Exact results -/

namespace Word

/-- Some word has this number as its signed value. -/
def Holds (x : Int) : Prop := -2 ^ 63 ≤ x ∧ x < 2 ^ 63

instance (x : Int) : Decidable (Holds x) := inferInstanceAs (Decidable (_ ∧ _))

/-- The word of an exact result, which must be the signed value of a word if that is checked. -/
def ofResult? (x : Int) (checked : Bool) : Option Word :=
  if checked = true ∧ ¬ Holds x then none else some (.ofInt 64 x)

theorem toInt_ofInt_of_holds {x : Int} (h : Holds x) : (BitVec.ofInt 64 x).toInt = x :=
  BitVec.toInt_ofInt_eq_self (by decide) h.1 h.2

theorem toNat_ofInt_eq_emod (x : Int) : ((BitVec.ofInt 64 x).toNat : Int) = x % 2 ^ 64 := by
  rw [BitVec.toNat_ofInt]
  exact Int.toNat_of_nonneg (Int.emod_nonneg x (by decide))

theorem add_eq_ofResult? (a b : Word) (checked : Bool) :
    add a b checked = ofResult? (a.toInt + b.toInt) checked := by
  have hover : BitVec.saddOverflow a b = true ↔ ¬ Holds (a.toInt + b.toInt) := by
    simp only [BitVec.saddOverflow, Holds, Bool.or_eq_true, decide_eq_true_eq]
    omega
  have hword : BitVec.ofInt 64 (a.toInt + b.toInt) = a + b := by
    rw [BitVec.ofInt_add, BitVec.ofInt_toInt, BitVec.ofInt_toInt]
  simp only [add, ofResult?, Bool.and_eq_true, hover, hword]

theorem subtract_eq_ofResult? (a b : Word) (checked : Bool) :
    subtract a b checked = ofResult? (a.toInt - b.toInt) checked := by
  have hover : BitVec.ssubOverflow a b = true ↔ ¬ Holds (a.toInt - b.toInt) := by
    simp only [BitVec.ssubOverflow, Holds, Bool.or_eq_true, decide_eq_true_eq]
    omega
  have hword : BitVec.ofInt 64 (a.toInt - b.toInt) = a - b := by
    rw [Int.sub_eq_add_neg, BitVec.ofInt_add, BitVec.ofInt_neg, BitVec.ofInt_toInt,
      BitVec.ofInt_toInt, BitVec.sub_eq_add_neg]
  simp only [subtract, ofResult?, Bool.and_eq_true, hover, hword]

/-- A shift to the left multiplies, and wraps around. -/
theorem toInt_shift_left (b : Word) {k : Nat} (h : k < 64) :
    (shift b true k).toInt = (b.toInt * 2 ^ k).bmod (2 ^ 64) := by
  rw [shift, if_pos rfl, Nat.mod_eq_of_lt h, BitVec.toInt_shiftLeft, BitVec.toInt_eq_toNat_bmod,
    Int.bmod_mul_bmod, Nat.shiftLeft_eq]
  norm_cast

/-- A shift to the right divides and rounds down. -/
theorem toInt_shift_right (b : Word) {k : Nat} (h : k < 64) :
    (shift b false k).toInt = b.toInt / 2 ^ k := by
  rw [shift, if_neg Bool.false_ne_true, Nat.mod_eq_of_lt h, BitVec.toInt_sshiftRight,
    Int.shiftRight_eq_div_pow]
  norm_cast

end Word

/-- The exact result of a sum or a difference. -/
def BinaryOp.sum? (op : BinaryOp) (a b : Int) : Option Int :=
  match op with
  | add => some (a + b)
  | subtract => some (a - b)
  | and | or | xor => none

namespace BinaryOp

variable {op : BinaryOp} {x : Int}

/-- The exact result decides the word. -/
theorem apply_of_sum? {a b : Word} (h : op.sum? a.toInt b.toInt = some x) (m : Modifiers)
    (checked : Bool) : op.apply a b m checked = Word.ofResult? x checked := by
  cases op <;> simp only [sum?, reduceCtorEq, Option.some.injEq] at h <;> subst h
  · exact Word.add_eq_ofResult? a b checked
  · exact Word.subtract_eq_ofResult? a b checked

theorem sum?_of_overflow_mem (h : .overflow ∈ op.codes) (a b : Int) :
    ∃ x, op.sum? a b = some x := by
  cases op
  case add | subtract => exact ⟨_, rfl⟩
  all_goals simp [codes] at h

end BinaryOp

/-- How far a shifted sum shifts is less than the length of a word. -/
theorem ShiftDistance.bits_lt (d : ShiftDistance) : d.bits < 64 := by cases d <;> decide

/-! ## Instructions -/

/-- A signed load of `w` at `a` has the preview `v`. -/
def Machine.Finds [Device δ] (m : Machine δ) (a : Word) (w : Width) (v : Word) : Prop :=
  ∃ p reply, (m.place a w .read).1 = .ok p ∧ m.memory.preview p w true = .ok reply ∧
    reply.value = v

/-- The instruction is to leave in `r` the sum or the difference that is exactly `x`. -/
inductive Instruction.Sums [Device δ] (m : Machine δ) : Instruction → Register → Int → Prop where
  | register {op r b a mods x}
    (result : op.sum? (m.registers.general b).toInt (m.registers.general a).toInt = some x) :
    Sums m (.binary op r b (.register a) mods) r x
  | immediate {op r b v mods x}
    (result : op.sum? (m.registers.general b).toInt v.toInt = some x) :
    Sums m (.binary op r b (.immediate v) mods) r x
  | memory {op w r operand mods v x} (finds : m.Finds (operand.address m.registers) w v)
    (result : op.sum? (m.registers.general r).toInt v.toInt = some x) :
    Sums m (.memoryBinary op w r operand mods) r x
  | shiftedLeft {distance r b a} : Sums m (.shiftAdd true distance r b a) r
    (((m.registers.general b).toInt * 2 ^ distance.bits).bmod (2 ^ 64) +
      (m.registers.general a).toInt)
  | shiftedRight {distance r b a} : Sums m (.shiftAdd false distance r b a) r
    ((m.registers.general b).toInt / 2 ^ distance.bits + (m.registers.general a).toInt)

/-- No sum is privileged. -/
theorem Instruction.Sums.isPrivileged [Device δ] {m : Machine δ} {i : Instruction} {r : Register}
    {x : Int} (h : i.Sums m r x) : i.isPrivileged = false := by
  cases h <;> rfl

namespace Exec

variable {s s' : Session δ} {i : Instruction} {r : Register} {x : Int} {t : Trap}
  {w : InstructionWord} {ia : BitVec 52}

/-- How an instruction ends that is a sum of exactly `x`: it sets `r` to the word of that, or
overflows if there is none. -/
def EndsAsSum (s : Session δ) (w : InstructionWord) (r : Register) (x : Int)
    (e : EStateM.Result Trap (Session δ) Flow) : Prop :=
  match Word.ofResult? x s.machine.registers.status.checksOverflow with
  | none => ∃ u, e = .error (w.trap .overflow) u ∧ u.machine.registers = s.machine.registers
  | some v => ∃ u, e = .ok .next u ∧
      u.machine.registers = s.machine.registers.setGeneral r v

theorem endsAsSum_checkedResult {v? : Option Word}
    (hv : v? = Word.ofResult? x s.machine.registers.status.checksOverflow) :
    EndsAsSum s w r x (checkedResult w r v? s) := by
  subst hv
  unfold EndsAsSum
  rcases Word.ofResult? x s.machine.registers.status.checksOverflow with _ | v
  · exact ⟨s, rfl, rfl⟩
  · exact ⟨_, rfl, rfl⟩

variable [Device δ]

/-- To find a value is to preview it. -/
theorem finds_iff {a v : Word} {width : Width} : s.machine.Finds a width v ↔
    ∃ p s₁, previewLoad a width true s = .ok (p, v) s₁ := by
  constructor
  · rintro ⟨p, reply, hplace, hseen, rfl⟩
    have hpreview : previewMemory p width true (s.withTlb (s.machine.place a width .read).2) =
        .ok reply.value ((s.withTlb (s.machine.place a width .read).2).afterReply reply) :=
      absorb_eq_ok.mpr ⟨reply, hseen, rfl, rfl⟩
    exact ⟨p, _, (bind_of_eq_ok (translate_eq_ok.mpr ⟨hplace, rfl⟩)).trans
      (bind_of_eq_ok hpreview)⟩
  · rintro ⟨p, s₁, h⟩
    obtain ⟨reply, hplace, hseen, hv, -⟩ := previewLoad_ok h
    exact ⟨p, reply, hplace, hseen, hv⟩

/-- A sum with its second operand in memory has previewed that, which changes no register. -/
theorem endsAsSum_combine {o : Combination} {v : Word}
    (hf : s.machine.Finds (o.operand.address s.machine.registers) o.width v)
    (ho : ∀ checked, o.result? checked (s.machine.registers.general o.register) v =
      Word.ofResult? x checked) : EndsAsSum s w o.register x (combine w o s) := by
  obtain ⟨p, s₁, hpreview⟩ := finds_iff.mp hf
  obtain ⟨-, -, -, -, hs₁⟩ := previewLoad_ok hpreview
  unfold EndsAsSum
  rw [combine_of_previewLoad hpreview, ho]
  rcases Word.ofResult? x s.machine.registers.status.checksOverflow with _ | v
  · exact ⟨s₁, rfl, by rw [hs₁]⟩
  · obtain ⟨s₂, hcommit⟩ := commitLoad_of_previewLoad_ok hpreview
    obtain ⟨_, -, hs₂⟩ := commitLoad_ok hcommit
    refine ⟨_, (bind_of_eq_ok hcommit).trans (result_apply _ _), ?_⟩
    rw [Session.machine_withRegisters, hs₂, hs₁]

/-- An instruction that sums ends with its sum, or with an overflow. -/
theorem perform_of_sums (h : i.Sums s.machine r x) (w : InstructionWord) (ia : BitVec 52) :
    EndsAsSum s w r x (perform w ia i s) := by
  cases h with
  | register result => exact endsAsSum_checkedResult (BinaryOp.apply_of_sum? result _ _)
  | @immediate op r b v mods x result =>
    have hv : (v.signExtend 64).toInt = v.toInt := BitVec.toInt_signExtend_of_le (by decide)
    rw [← hv] at result
    exact endsAsSum_checkedResult (BinaryOp.apply_of_sum? result _ _)
  | @memory op width r operand mods v x finds result =>
    rw [perform_combination (i := .memoryBinary op width r operand mods) rfl]
    exact endsAsSum_combine (o := ⟨width, r, operand, _⟩) finds
      fun checked => BinaryOp.apply_of_sum? result mods checked
  | @shiftedLeft distance r b a =>
    rw [← Word.toInt_shift_left _ distance.bits_lt]
    exact endsAsSum_checkedResult (Word.add_eq_ofResult? _ _ _)
  | @shiftedRight distance r b a =>
    rw [← Word.toInt_shift_right _ distance.bits_lt]
    exact endsAsSum_checkedResult (Word.add_eq_ofResult? _ _ _)

/-- An instruction that overflows is a sum or a difference. -/
theorem sums_of_perform_overflow (hl : i.isLegal = true)
    (h : perform w ia i s = .error t s') (ht : t.code = .overflow) :
    ∃ r x, i.Sums s.machine r x := by
  have hcode := (perform_trapsWith w ia hl).code_mem h
  rw [ht] at hcode
  have hnone : TrapCode.overflow ∉ TrapCode.ofAccess := by decide
  -- the codes leave sums only, and one with its operand in memory has found that
  cases i <;> simp only [Instruction.codes, List.mem_append, List.mem_singleton, List.not_mem_nil,
    hnone, or_false, reduceCtorEq] at hcode
  case binary op r b operand mods =>
    cases operand with
    | register a =>
      obtain ⟨x, hx⟩ := BinaryOp.sum?_of_overflow_mem hcode _ _
      exact ⟨r, x, .register hx⟩
    | immediate v =>
      obtain ⟨x, hx⟩ := BinaryOp.sum?_of_overflow_mem hcode _ _
      exact ⟨r, x, .immediate hx⟩
  case shiftAdd left distance r b a =>
    cases left with
    | true => exact ⟨r, _, .shiftedLeft⟩
    | false => exact ⟨r, _, .shiftedRight⟩
  case memoryBinary op width r operand mods =>
    rw [perform_combination (i := .memoryBinary op width r operand mods) rfl] at h
    rcases combine_error h with hload | ⟨p, v, hload⟩
    · have hcode := (TrapsWith.previewLoad width _ true).code_mem hload
      rw [ht] at hcode
      exact absurd hcode hnone
    · obtain ⟨x, hx⟩ := BinaryOp.sum?_of_overflow_mem hcode _ _
      exact ⟨r, x, .memory (finds_iff.mpr ⟨p, _, hload⟩) hx⟩

end Exec

/-! ## Cycles -/

namespace Session

variable [Device δ] {s s₁ : Session δ} {i : Instruction} {r : Register} {x : Int} {t : Trap}
  {w : InstructionWord}

/-- The instruction register decides nothing about a sum. -/
theorem sums_withInstruction (word : InstructionWord) (h : i.Sums s.machine r x) :
    i.Sums (s.withInstruction word).machine r x := by
  cases h with
  | register result => exact .register result
  | immediate result => exact .immediate result
  | memory finds result => exact .memory finds result
  | shiftedLeft => exact .shiftedLeft
  | shiftedRight => exact .shiftedRight

/-- How a cycle ends that has fetched the word `w` of a sum of exactly `x` into `r`. -/
inductive SumEnds (s : Session δ) (w : InstructionWord) (r : Register) (x : Int) : Prop where
  | fits (checked : s.machine.registers.status.checksOverflow = true) (holds : Word.Holds x)
    (retires : s.trap? = none)
    (result : r ≠ 0 → (s.cycle.2.machine.registers.general r).toInt = x)
    (others : ∀ q, r ≠ q →
      s.cycle.2.machine.registers.general q = s.machine.registers.general q)
  | overflows (checked : s.machine.registers.status.checksOverflow = true)
    (exceeds : ¬ Word.Holds x) (traps : s.trap? = some (w.trap .overflow))
    (generals : s.cycle.2.machine.registers.generals = s.machine.registers.generals)
  | wraps (unchecked : s.machine.registers.status.checksOverflow = false)
    (retires : s.trap? = none)
    (result : r ≠ 0 → ((s.cycle.2.machine.registers.general r).toNat : Int) = x % 2 ^ 64)
    (others : ∀ q, r ≠ q →
      s.cycle.2.machine.registers.general q = s.machine.registers.general q)

/-- The cycle of an instruction that sums ends as the instruction does. -/
theorem sumEnds_of_fetch
    (hf : Exec.fetch s.machine.registers.status.location s.begun = .ok w s₁)
    (hi : Instruction.ofWord? w = some i) (hl : i.isLegal = true)
    (hx : i.Sums s₁.machine r x) : s.SumEnds w r x := by
  obtain ⟨htrap, hcycle⟩ := cycle_of_fetch hf
  have hregisters := registers_of_fetched hf
  have hends := Exec.perform_of_sums (sums_withInstruction w hx) w
    s.machine.registers.status.address
  rw [← Exec.execute_of_unprivileged hi hl hx.isPrivileged] at hends
  unfold Exec.EndsAsSum at hends
  simp only [hregisters, Word.ofResult?] at hends
  by_cases hover : s.machine.registers.status.checksOverflow = true ∧ ¬ Word.Holds x
  · rw [if_pos hover] at hends
    obtain ⟨u, he, hu⟩ := hends
    refine .overflows hover.1 hover.2 (by rw [htrap, obeyTrap?, he]) ?_
    rw [hcycle, obey, he]
    exact (takeTrap_keeps u _ _).2.2.trans (congrArg (·.generals) hu)
  · rw [if_neg hover] at hends
    obtain ⟨u, he, hu⟩ := hends
    rw [← hregisters] at hu
    obtain ⟨hnone, -, hafter⟩ := cycle_of_set hf he hu
    have hself (hr : r ≠ 0) : s.cycle.2.machine.registers.general r = .ofInt 64 x := by
      rw [hafter]
      exact Registers.general_setGeneral_self hr _
    have hothers (q : Register) (hq : r ≠ q) :
        s.cycle.2.machine.registers.general q = s.machine.registers.general q := by
      rw [hafter]
      exact Registers.general_setGeneral_of_ne hq _
    rcases hchecks : s.machine.registers.status.checksOverflow with _ | _
    · exact .wraps hchecks hnone (fun hr => by rw [hself hr, Word.toNat_ofInt_eq_emod]) hothers
    · have hholds : Word.Holds x := by simpa [hchecks] using hover
      exact .fits hchecks hholds hnone
        (fun hr => by rw [hself hr, Word.toInt_ofInt_of_holds hholds]) hothers

/-- A cycle that overflows has fetched a sum or a difference. -/
theorem sums_of_overflow (ht : s.trap? = some t) (hc : t.code = .overflow) :
    ∃ w s₁ i r x, Exec.fetch s.machine.registers.status.location s.begun = .ok w s₁ ∧
      Instruction.ofWord? w = some i ∧ i.isLegal = true ∧ i.Sums s₁.machine r x := by
  rcases hf : Exec.fetch s.machine.registers.status.location s.begun with ⟨w, s₁⟩ | ⟨e, s₁⟩
  · rw [(cycle_of_fetch hf).1, obeyTrap?] at ht
    split at ht
    · cases ht
    · rename_i he
      obtain rfl := Option.some.inj ht
      rcases Exec.execute_error he with ⟨-, rfl | rfl⟩ | ⟨i, hi, hl, hperform⟩
      · cases hc
      · cases hc
      · obtain ⟨r, x, hx⟩ := Exec.sums_of_perform_overflow hl hperform hc
        exact ⟨w, s₁, i, r, x, rfl, hi, hl,
          sums_withInstruction (s := s₁.withInstruction w) s₁.machine.registers.instruction hx⟩
  · have hmem := code_mem_of_fetch_error hf ht
    rw [hc] at hmem
    exact absurd hmem (by decide)

/-- A cycle that has fetched a sum ends as its exact result says, and a cycle that overflows has
fetched a sum that is checked and whose exact result no word holds. -/
theorem sums_exact_or_overflow (s : Session δ) :
    (∀ w s₁ i r x, Exec.fetch s.machine.registers.status.location s.begun = .ok w s₁ →
      Instruction.ofWord? w = some i → i.isLegal = true → i.Sums s₁.machine r x →
      s.SumEnds w r x) ∧
    ∀ t, s.trap? = some t → t.code = .overflow →
      ∃ (w : InstructionWord) (s₁ : Session δ) (i : Instruction) (r : Register) (x : Int),
        Exec.fetch s.machine.registers.status.location s.begun = .ok w s₁ ∧
        Instruction.ofWord? w = some i ∧ i.Sums s₁.machine r x ∧ t = w.trap .overflow ∧
        s.machine.registers.status.checksOverflow = true ∧ ¬ Word.Holds x := by
  refine ⟨fun _ _ _ _ _ hf hi hl hx => sumEnds_of_fetch hf hi hl hx, fun t ht hc => ?_⟩
  -- a cycle that overflows is that of a sum, which overflows in no other case
  obtain ⟨w, s₁, i, r, x, hf, hi, hl, hx⟩ := sums_of_overflow ht hc
  cases sumEnds_of_fetch hf hi hl hx with
  | fits _ _ retires => cases ht.symm.trans retires
  | wraps _ retires => cases ht.symm.trans retires
  | overflows checked exceeds traps =>
    exact ⟨w, s₁, i, r, x, hf, hi, hx, Option.some.inj (ht.symm.trans traps), checked, exceeds⟩

/-- A machine that checks overflow, at the word `w`. Its registers are zero, and the most negative
number stands at address 0x100. -/
def ofBrink (w : InstructionWord) : Session Empty where
  machine := {
    settings := {}
    registers := { Registers.cleared with status := ⟨3, 0⟩ }
    tlb := .create 2
    memory := ⟨((ByteStore.zeros 0x8000).withProgram 0 [w]).withProgram 0x100 [0, 0x80000000],
      .create 0⟩
    state := .running
    lastTrap := none
    counters := {}
    handlerEntry := none }
  log := #[]

/-- No word holds zero less the most negative number, which is subtracted from memory here. -/
theorem ofBrink_overflows :
    (ofBrink (.pack 1 2 1 0 0 0x6100)).SumEnds (.pack 1 2 1 0 0 0x6100) 1 (2 ^ 63) ∧
    ∃ x, (ofBrink (.pack 1 2 1 0 0 0x6100)).trap? =
      some (InstructionWord.trap (.pack 1 2 1 0 0 0x6100) .overflow) ∧ ¬ Word.Holds x := by
  have hi : Instruction.ofWord? (.pack 1 2 1 0 0 0x6100) =
      some (.memoryBinary .subtract .double 1 (.displaced 0 0x100) ⟨false, false⟩) := by rfl
  have ht : (ofBrink (.pack 1 2 1 0 0 0x6100)).trap? =
      some (InstructionWord.trap (.pack 1 2 1 0 0 0x6100) .overflow) := by rfl
  obtain ⟨hends, hover⟩ := sums_exact_or_overflow (ofBrink (.pack 1 2 1 0 0 0x6100))
  obtain ⟨_, _, _, _, x, -, -, -, -, -, hx⟩ := hover _ ht rfl
  refine ⟨hends _ _ _ _ _ rfl hi rfl (.memory (v := 0x8000000000000000) ⟨_, _, rfl, rfl, ?_⟩ ?_),
    x, ht, hx⟩
  · rfl
  · rfl

/-- A sum that fits is lost in register 0. -/
theorem ofBrink_not_exact : ¬ ∀ (s : Session Empty) w s₁ i r x,
    Exec.fetch s.machine.registers.status.location s.begun = .ok w s₁ →
    Instruction.ofWord? w = some i → i.isLegal = true → i.Sums s₁.machine r x →
    s.machine.registers.status.checksOverflow = true → Word.Holds x →
    s.trap? = none ∧ (s.cycle.2.machine.registers.general r).toInt = x := by
  intro h
  have hi : Instruction.ofWord? (.pack 0 1 0 1 0 5) =
      some (.binary .add 0 0 (.immediate 5) ⟨false, false⟩) := by rfl
  have hfive := (h (ofBrink (.pack 0 1 0 1 0 5)) _ _ _ _ 5 rfl hi rfl (.immediate rfl) rfl
    (by decide)).2
  cases hfive

end Session

end Processor64
