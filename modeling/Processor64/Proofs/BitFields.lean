import Mathlib.Data.List.Forall2
import Processor64.Proofs.Branches

/-!
# Bit fields and immediate loads

A bit field is replaced and read bit by bit (`getLsbD_deposit`, `getLsbD_extract`), and from the
bits follows how deposits and extractions fit together (`BitField.Lawful`): what was deposited is
extracted, what was extracted can be deposited again, and deposits in disjoint fields commute.

An immediate load sets the bits of its part of a register and keeps the others, except for the
load of the low part, which clears them. The four parts make up a word, so a load of the low part
and then of the others in any order leaves the word whose parts were loaded
(`fields_lawful_and_words_loaded`).
-/

namespace Processor64

variable {δ : Type}

/-! ## Fields of words -/

namespace BitField

variable {t u v : Word} {pos len i : Nat}

theorem getLsbD_lowMask (len : Nat) (hi : i < 64) :
    (lowMask len).getLsbD i = decide (i < len) := by
  rw [lowMask, BitVec.getLsbD_setWidth, BitVec.getLsbD_allOnes, decide_eq_true hi, Bool.true_and]
  exact decide_eq_decide.mpr (by omega)

/-- A deposit takes the field's bits from the value and all others from the target. -/
theorem getLsbD_deposit (t v : Word) (h : pos + len ≤ 64) (i : Nat) :
    (deposit t v pos len).getLsbD i =
      if pos ≤ i ∧ i < pos + len then v.getLsbD (i - pos) else t.getLsbD i := by
  by_cases hi : i < 64
  · simp only [deposit, BitVec.getLsbD_or, BitVec.getLsbD_and, BitVec.getLsbD_not,
      BitVec.getLsbD_shiftLeft, hi, getLsbD_lowMask len (show i - pos < 64 by omega)]
    by_cases hin : pos ≤ i ∧ i < pos + len
    · have hlen : i - pos < len := by omega
      simp [hin, hlen, Nat.not_lt.mpr hin.1]
    · have hout : i < pos ∨ ¬ i - pos < len := by omega
      rcases hout with hout | hout <;> simp [hin, hout]
  · have hout : ¬ (pos ≤ i ∧ i < pos + len) := by omega
    rw [if_neg hout, BitVec.getLsbD_of_ge _ _ (by omega), BitVec.getLsbD_of_ge _ _ (by omega)]

/-- Within its length an extracted field has the bits of the word, with either sign. -/
theorem getLsbD_extract (v : Word) (signed : Bool) (h : pos + len ≤ 64) (hi : i < len) :
    (extract v pos len signed).getLsbD i = v.getLsbD (pos + i) := by
  have h64 : i < 64 := by omega
  rw [extract, show min len 64 = len by omega]
  cases signed
  · rw [if_neg Bool.false_ne_true, BitVec.getLsbD_setWidth, BitVec.getLsbD_extractLsb']
    simp [hi, h64]
  · rw [if_pos rfl, BitVec.getLsbD_signExtend, BitVec.getLsbD_extractLsb']
    simp [hi, h64]

/-- The field that was deposited. -/
theorem extractLsb'_deposit (t v : Word) (h : pos + len ≤ 64) :
    (deposit t v pos len).extractLsb' pos len = v.setWidth len := by
  ext i hi
  have hin : pos ≤ pos + i ∧ pos + i < pos + len := by omega
  rw [BitVec.getElem_extractLsb', getLsbD_deposit t v h, if_pos hin, Nat.add_sub_cancel_left,
    BitVec.getElem_setWidth]

/-- How deposits and extractions in a field fit together. -/
structure Lawful (pos len : Nat) : Prop where
  bits : ∀ t v i, (deposit t v pos len).getLsbD i =
    if pos ≤ i ∧ i < pos + len then v.getLsbD (i - pos) else t.getLsbD i
  extracted : ∀ t v, (extract (deposit t v pos len) pos len false).toNat = v.toNat % 2 ^ len
  extracted_signed : ∀ t v,
    (extract (deposit t v pos len) pos len true).toInt = (v.toNat : Int).bmod (2 ^ len)
  restored : ∀ t signed, deposit t (extract t pos len signed) pos len = t
  commutes : ∀ t u v pos' len', pos' + len' ≤ 64 →
    (pos + len ≤ pos' ∨ pos' + len' ≤ pos) →
    deposit (deposit t u pos len) v pos' len' = deposit (deposit t v pos' len') u pos len

theorem lawful_of_le (h : pos + len ≤ 64) : Lawful pos len where
  bits t v := getLsbD_deposit t v h
  extracted t v := by
    have hpow : 2 ^ len ≤ 2 ^ 64 := Nat.pow_le_pow_right (by decide) (by omega)
    have hlt : v.toNat % 2 ^ len < 2 ^ 64 :=
      Nat.lt_of_lt_of_le (Nat.mod_lt _ (Nat.two_pow_pos len)) hpow
    rw [extract, show min len 64 = len by omega, extractLsb'_deposit t v h]
    simp only [Bool.false_eq_true, if_false, BitVec.toNat_setWidth]
    exact Nat.mod_eq_of_lt hlt
  extracted_signed t v := by
    rw [extract, show min len 64 = len by omega, extractLsb'_deposit t v h]
    simp only [if_true]
    rw [BitVec.toInt_signExtend_of_le (by omega), BitVec.toInt_setWidth]
  restored t signed := by
    refine BitVec.eq_of_getLsbD_eq fun i hi => ?_
    rw [getLsbD_deposit _ _ h]
    split
    · rename_i hin
      rw [getLsbD_extract t signed h (by omega), Nat.add_sub_cancel' hin.1]
    · rfl
  commutes t u v pos' len' h' hdisjoint := by
    refine BitVec.eq_of_getLsbD_eq fun i hi => ?_
    simp only [getLsbD_deposit _ _ h, getLsbD_deposit _ _ h']
    by_cases hin : pos ≤ i ∧ i < pos + len
    · have hout : ¬ (pos' ≤ i ∧ i < pos' + len') := by omega
      rw [if_pos hin, if_neg hout, if_pos hin]
    · rw [if_neg hin, if_neg hin]

/-- A double shift is a shift of the two words as one number. -/
theorem toNat_doubleShiftRight (h l : Word) {k : Nat} (hk : k < 64) :
    (doubleShiftRight h l k).toNat = (h.toNat * 2 ^ 64 + l.toNat) / 2 ^ k % 2 ^ 64 := by
  rw [doubleShiftRight, Nat.mod_eq_of_lt hk, BitVec.extractLsb'_toNat, toNat_append_eq_add,
    Nat.shiftLeft_eq, Nat.shiftRight_eq_div_pow]

end BitField

/-! ## Parts of words -/

namespace ImmediatePart

/-- The number of a part in its instruction word. -/
def code : ImmediatePart → Nat
  | low => 0
  | middle => 1
  | upper => 2
  | top => 3

/-- The lowest bit of a part. -/
def first (part : ImmediatePart) : Nat := 20 * part.code

/-- The bits of a part. The top part has four, of the twenty that its load carries. -/
def length : ImmediatePart → Nat
  | low | middle | upper => 20
  | top => 4

/-- The bit lies in the part. -/
def Covers (part : ImmediatePart) (i : Nat) : Prop :=
  part.first ≤ i ∧ i < part.first + part.length

/-- The immediate has the bits of the part of `v`. -/
def Carries (part : ImmediatePart) (imm : BitVec 20) (v : Word) : Prop :=
  imm.toNat % 2 ^ part.length = v.toNat / 2 ^ part.first % 2 ^ part.length

/-- What a load leaves of the old value. -/
def kept (part : ImmediatePart) (old : Word) : Word :=
  match part with
  | low => 0
  | middle | upper | top => old

theorem kept_of_ne {part : ImmediatePart} (h : part ≠ low) (old : Word) : part.kept old = old := by
  cases part
  · exact absurd rfl h
  all_goals rfl

/-- A register after a load of a part. -/
def loaded (part : ImmediatePart) (old : Word) (imm : BitVec 20) : Word :=
  BitField.deposit (part.kept old) (imm.setWidth 64) part.first part.length

/-- The words agree in all bits of the parts. -/
def AgreeIn (parts : List ImmediatePart) (x v : Word) : Prop :=
  ∀ part ∈ parts, ∀ i, part.Covers i → x.getLsbD i = v.getLsbD i

variable {part : ImmediatePart} {imm : BitVec 20} {v x : Word} {i : Nat}

theorem le_first_add_length (part : ImmediatePart) : part.first + part.length ≤ 64 := by
  cases part <;> decide

/-- The parts make up a word. -/
theorem exists_covers (hi : i < 64) : ∃ part : ImmediatePart, part.Covers i := by
  have hcases : i < 20 ∨ 20 ≤ i ∧ i < 40 ∨ 40 ≤ i ∧ i < 60 ∨ 60 ≤ i := by omega
  rcases hcases with h | h | h | h
  · exact ⟨low, Nat.zero_le i, h⟩
  · exact ⟨middle, h⟩
  · exact ⟨upper, h⟩
  · exact ⟨top, h, hi⟩

/-- Words that agree in every part are equal. -/
theorem eq_of_agreeIn {parts : List ImmediatePart} (hall : ∀ part, part ∈ parts)
    (h : AgreeIn parts x v) : x = v := by
  refine BitVec.eq_of_getLsbD_eq fun i hi => ?_
  obtain ⟨part, hpart⟩ := exists_covers hi
  exact h part (hall part) i hpart

theorem Carries.getLsbD (h : part.Carries imm v) (hi : part.Covers i) :
    imm.getLsbD (i - part.first) = v.getLsbD i := by
  obtain ⟨hle, hlt⟩ := hi
  have hlt : i - part.first < part.length := by omega
  have hbit := congrArg (Nat.testBit · (i - part.first)) h
  simp only [Nat.testBit_mod_two_pow, Nat.testBit_div_two_pow, hlt, decide_true,
    Bool.true_and] at hbit
  rwa [Nat.sub_add_cancel hle] at hbit

/-- A load sets its part, and unless that is the low one it keeps the others. -/
theorem agreeIn_loaded {parts : List ImmediatePart} (h : part.Carries imm v)
    (hx : AgreeIn parts (part.kept x) v) : AgreeIn (part :: parts) (part.loaded x imm) v := by
  intro q hq i hi
  rw [loaded, BitField.getLsbD_deposit _ _ part.le_first_add_length]
  split
  · rename_i hin
    have hlt : i - part.first < 64 := by
      have := part.le_first_add_length
      omega
    rw [BitVec.getLsbD_setWidth, h.getLsbD hin, decide_eq_true hlt, Bool.true_and]
  · rename_i hout
    rcases List.mem_cons.mp hq with rfl | hq
    · exact absurd hi hout
    · exact hx q hq i hi

end ImmediatePart

/-- A load into `r` of the part of `v`. -/
structure InstructionWord.LoadsPart (w : InstructionWord) (part : ImmediatePart) (r : Register)
    (v : Word) : Prop where
  group : w.group = 0
  family : w.family = 9
  code : w.qualifier.toNat / 2 = part.code
  register : w.r = r
  carries : part.Carries w.imm20 v

theorem InstructionWord.immediatePart_eq {w : InstructionWord} {part : ImmediatePart}
    (h : w.qualifier.toNat / 2 = part.code) : w.immediatePart = part := by
  unfold immediatePart
  generalize w.qualifier = q at h ⊢
  cases part <;> revert q <;> decide

theorem ImmediatePart.loaded_low (old : Word) (imm : BitVec 20) :
    low.loaded old imm = imm.setWidth 64 := by
  refine BitVec.eq_of_getLsbD_eq fun i hi => ?_
  rw [loaded, BitField.getLsbD_deposit _ _ low.le_first_add_length]
  split
  · rfl
  · rename_i hout
    have hge : 20 ≤ i := Nat.le_of_not_lt fun hlt => hout ⟨Nat.zero_le i, hlt⟩
    rw [BitVec.getLsbD_setWidth, BitVec.getLsbD_of_ge imm i hge, Bool.and_false]
    exact BitVec.getLsbD_zero

namespace Exec

theorem loadImmediate_apply (part : ImmediatePart) (r : Register) (imm : BitVec 20)
    (s : Session δ) : loadImmediate part r imm s = .ok .next (s.withRegisters
      (s.machine.registers.setGeneral r (part.loaded (s.machine.registers.general r) imm))) := by
  cases part
  case low =>
    rw [ImmediatePart.loaded_low]
    rfl
  all_goals rfl

theorem execute_of_loadsPart [Device δ] {w : InstructionWord} {part : ImmediatePart}
    {r : Register} {v : Word} (h : w.LoadsPart part r v) (ia : BitVec 52) (s : Session δ) :
    execute w ia s = .ok .next (s.withRegisters
      (s.machine.registers.setGeneral r
        (part.loaded (s.machine.registers.general r) w.imm20))) := by
  have hi : Instruction.ofWord? w = some (.loadImmediate part r w.imm20) := by
    simp [Instruction.ofWord?, Instruction.ofArithmeticWord?, h.group, h.family, h.register,
      InstructionWord.immediatePart_eq h.code]
  rw [← loadImmediate_apply]
  exact execute_of_unprivileged hi rfl rfl

end Exec

/-! ## Cycles -/

namespace Session

open ImmediatePart

variable [Device δ] {s : Session δ} {w : InstructionWord} {ws : List InstructionWord}
  {part : ImmediatePart} {parts done : List ImmediatePart} {r : Register} {v : Word} {n : Nat}

/-- The next cycles fetch the words one after the other. -/
def FetchesAll (s : Session δ) : List InstructionWord → Prop
  | [] => True
  | w :: ws => s.Fetches w ∧ s.cycle.2.FetchesAll ws

/-- From `s`, `n` instructions have retired without a reason to stop, and set no register but
`r`. -/
structure SetsOnly (s : Session δ) (r : Register) (n : Nat) (e : Option StopReason × Session δ) :
    Prop where
  goesOn : e.1 = none
  retired : e.2.machine.counters.retired = s.machine.counters.retired + n
  others : ∀ q, r ≠ q → e.2.machine.registers.general q = s.machine.registers.general q

omit [Device δ] in
/-- Cycles that set only one register follow one another. -/
theorem SetsOnly.trans {m : Nat} {e e' : Option StopReason × Session δ} (h : s.SetsOnly r m e)
    (h' : e.2.SetsOnly r n e') : s.SetsOnly r (m + n) e' where
  goesOn := h'.goesOn
  retired := by rw [h'.retired, h.retired, Nat.add_assoc]
  others q hq := (h'.others q hq).trans (h.others q hq)

theorem cycles_succ (h : s.cycle.1 = none) (n : Nat) :
    s.cycles (n + 1) = s.cycle.2.cycles n := by
  rw [cycles]
  rcases hc : s.cycle with ⟨_ | _, s₁⟩
  · rfl
  · rw [hc] at h
    cases h

/-- A cycle that loads a part sets its bits. -/
theorem cycle_of_loadsPart (hf : s.Fetches w) (hw : w.LoadsPart part r v) :
    s.SetsOnly r 1 s.cycle ∧ (r ≠ 0 → s.cycle.2.machine.registers.general r =
      part.loaded (s.machine.registers.general r) w.imm20) := by
  obtain ⟨s₁, hf⟩ := hf
  have he := Exec.execute_of_loadsPart hw s.machine.registers.status.address (s₁.withInstruction w)
  rw [registers_of_fetched hf] at he
  obtain ⟨htrap, hnone, hafter⟩ := cycle_of_set hf he (by rw [registers_of_fetched hf]; rfl)
  have hretired := retired_cycle s
  rw [htrap] at hretired
  refine ⟨⟨hnone, hretired, fun q hq => ?_⟩, fun hr => ?_⟩
  · rw [hafter]
    exact Registers.general_setGeneral_of_ne hq _
  · rw [hafter]
    exact Registers.general_setGeneral_self hr _

/-- Loads of parts but the low one add their bits to those that the register has already. -/
theorem cycles_of_loadsParts (hr : r ≠ 0)
    (hws : List.Forall₂ (fun w part => w.LoadsPart part r v) ws parts) (hlow : low ∉ parts)
    (hf : s.FetchesAll ws) (hdone : AgreeIn done (s.machine.registers.general r) v) :
    s.SetsOnly r ws.length (s.cycles ws.length) ∧
      AgreeIn (parts ++ done) ((s.cycles ws.length).2.machine.registers.general r) v := by
  -- each load adds its part to those done, so the order of the parts does not matter
  induction hws generalizing s done with
  | nil => exact ⟨⟨rfl, rfl, fun _ _ => rfl⟩, hdone⟩
  | @cons w part ws parts hw _ ih =>
    obtain ⟨hfetch, hrest⟩ := hf
    obtain ⟨hne, hlow⟩ := List.ne_and_not_mem_of_not_mem_cons hlow
    obtain ⟨hstep, hself⟩ := cycle_of_loadsPart hfetch hw
    have hpart : AgreeIn (part :: done) (s.cycle.2.machine.registers.general r) v := by
      rw [hself hr]
      exact agreeIn_loaded hw.carries (by rwa [kept_of_ne (Ne.symm hne)])
    obtain ⟨hsets, hagree⟩ := ih hlow hrest hpart
    rw [List.length_cons, cycles_succ hstep.goesOn, Nat.add_comm]
    refine ⟨hstep.trans hsets, fun q hq => hagree q ?_⟩
    simpa [or_left_comm] using hq

/-- A load of the low part and then of the others leaves the word, whatever was there before. -/
theorem cycles_of_loadsWord (hr : r ≠ 0) (hw : w.LoadsPart low r v)
    (hparts : parts.Perm [middle, upper, top])
    (hws : List.Forall₂ (fun w part => w.LoadsPart part r v) ws parts)
    (hf : s.FetchesAll (w :: ws)) :
    s.SetsOnly r 4 (s.cycles 4) ∧ (s.cycles 4).2.machine.registers.general r = v := by
  have hlength : ws.length = 3 := hws.length_eq.trans hparts.length_eq
  have hmem (part : ImmediatePart) : part ∈ parts ↔ part ∈ [middle, upper, top] :=
    hparts.mem_iff
  obtain ⟨hfetch, hrest⟩ := hf
  obtain ⟨hstep, hself⟩ := cycle_of_loadsPart hfetch hw
  have hfirst : AgreeIn [low] (s.cycle.2.machine.registers.general r) v := by
    rw [hself hr]
    exact agreeIn_loaded hw.carries nofun
  have hlow : low ∉ parts := by rw [hmem]; decide
  obtain ⟨hsets, hagree⟩ := cycles_of_loadsParts hr hws hlow hrest hfirst
  rw [hlength] at hsets hagree
  rw [cycles_succ hstep.goesOn]
  refine ⟨hstep.trans hsets, eq_of_agreeIn (fun part => ?_) hagree⟩
  rw [List.mem_append, hmem]
  cases part <;> decide

/-- Deposits, extractions and double shifts are what they are in numbers, and from any state four
loads that begin with the low part leave in a register the word whose parts they carry. -/
theorem fields_lawful_and_words_loaded :
    (∀ pos len, pos + len ≤ 64 → BitField.Lawful pos len) ∧
    (∀ (h l : Word) k, k < 64 → (BitField.doubleShiftRight h l k).toNat =
      (h.toNat * 2 ^ 64 + l.toNat) / 2 ^ k % 2 ^ 64) ∧
    ∀ (s : Session δ) (r : Register) (v : Word) w ws (parts : List ImmediatePart), r ≠ 0 →
      w.LoadsPart low r v → parts.Perm [middle, upper, top] →
      List.Forall₂ (fun w part => w.LoadsPart part r v) ws parts → s.FetchesAll (w :: ws) →
      s.SetsOnly r 4 (s.cycles 4) ∧ (s.cycles 4).2.machine.registers.general r = v :=
  ⟨fun _ _ h => BitField.lawful_of_le h, fun h l _ hk => BitField.toNat_doubleShiftRight h l hk,
    fun _ _ _ _ _ _ hr hw hparts hws hf => cycles_of_loadsWord hr hw hparts hws hf⟩

/-- A machine at four loads into register 1, which is full of ones. The load of the top part is not
the last, and carries more bits than the part has. -/
def ofLoads : Session Empty where
  machine := {
    settings := {}
    registers := { Registers.cleared.setGeneral 1 (-1) with status := ⟨1, 0⟩ }
    tlb := .create 2
    memory := ⟨(ByteStore.zeros 0x8000).withProgram 0
      [0x24443210, 0x247ABCDF, 0x24598765, 0x246EDCBA], .create 0⟩
    state := .running
    lastTrap := none
    counters := {}
    handlerEntry := none }
  log := #[]

theorem ofLoads_loaded :
    (BitField.Lawful 63 1 ∧ BitField.Lawful 0 64) ∧
    (BitField.doubleShiftRight 1 0 63).toNat = 2 ∧
    ofLoads.SetsOnly 1 4 (ofLoads.cycles 4) ∧
    (ofLoads.cycles 4).2.machine.registers.general 1 = 0xFEDCBA9876543210 := by
  obtain ⟨hlawful, hshift, hloads⟩ := fields_lawful_and_words_loaded (δ := Empty)
  have hf : ofLoads.FetchesAll [0x24443210, 0x247ABCDF, 0x24598765, 0x246EDCBA] :=
    ⟨⟨_, by rfl⟩, ⟨_, by rfl⟩, ⟨_, by rfl⟩, ⟨_, by rfl⟩, trivial⟩
  have hwords : List.Forall₂
      (fun (w : InstructionWord) part => w.LoadsPart part 1 0xFEDCBA9876543210)
      [0x247ABCDF, 0x24598765, 0x246EDCBA] [top, middle, upper] :=
    .cons (by constructor <;> rfl) (.cons (by constructor <;> rfl)
      (.cons (by constructor <;> rfl) .nil))
  exact ⟨⟨hlawful 63 1 (by decide), hlawful 0 64 (by decide)⟩, hshift 1 0 63 (by decide),
    hloads _ 1 _ _ _ _ (by decide) (by constructor <;> rfl) (by decide) hwords hf⟩

end Session

end Processor64
