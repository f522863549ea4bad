import Processor64.Proofs.Decision
import Processor64.Proofs.Operand
import Processor64.Proofs.Steady

/-!
# Branches

A branch is taken or not (`InstructionWord.taken`), and has a target of 64 bits
(`InstructionWord.target`), which is stated in numbers that wrap at the end only. A branch that is
taken goes to its target if that is an aligned address of 52 bits, and else traps about the whole
of it before anything is written, the link register included (`cycle_of_branch`).
-/

namespace Processor64

variable {δ : Type}

/-- An aligned address that a status word can hold. -/
def Word.IsReachable (t : Word) : Prop := t.toNat % 4 = 0 ∧ t.toNat < 2 ^ 52

instance (t : Word) : Decidable t.IsReachable := inferInstanceAs (Decidable (_ ∧ _))

namespace InstructionWord

variable {w : InstructionWord}

/-- A branch of one of the six families. -/
structure IsBranch (w : InstructionWord) : Prop where
  group : w.group = 2
  family : w.family ∈ [1, 2, 3, 4, 5, 6]

/-- The branches that leave the address of the following instruction in register R. -/
def links (w : InstructionWord) : Bool := w.family.toNat ≤ 3

/-- The bit that a branch on a bit tests. -/
def testedPosition (w : InstructionWord) (s : Registers) : Nat :=
  if w.qualifier.getLsbD 1 then (s.control .shiftAmount).toNat % 64 else w.bitPosition.toNat

/-- Whether a branch is taken: one on a bit or on a condition if that is as it says, and any other
always. -/
def taken (w : InstructionWord) (s : Registers) : Bool :=
  match w.family.toNat with
  | 4 => (s.general w.r).getLsbD (w.testedPosition s) == w.qualifier.getLsbD 0
  | 5 => (Condition.ofBranchCode w.qualifier).holds (s.general w.r) (s.general w.b)
  | _ => true

/-- A branch that leaves an address is always taken. -/
theorem taken_of_links (h : w.links = true) (s : Registers) : w.taken s = true := by
  have hle : w.family.toNat ≤ 3 := by simpa [links] using h
  unfold taken
  split <;> first | omega | rfl

/-- The target of a branch at `ia`. -/
def target (w : InstructionWord) (s : Registers) (ia : BitVec 52) : Word :=
  match w.family.toNat with
  | 1 => .ofInt 64 (ia.toNat + 4 * w.imm19.toInt)
  | 2 => s.general w.b
  | 3 => .ofNat 64 ((s.general w.b).toNat + 4 * (s.general w.a).toNat)
  | 4 => .ofInt 64 (ia.toNat + 4 * w.imm13.toInt)
  | 5 => .ofInt 64 (ia.toNat + 4 * w.imm15.toInt)
  | _ => .ofNat 64 (ia.toNat + 4 + 4 * min (s.general w.b).toNat (w.imm15.toNat % 2 ^ 14))

/-- The registers with what a branch at `ia` that is taken writes. -/
def linked (w : InstructionWord) (s : Registers) (ia : BitVec 52) : Registers :=
  if w.links then s.setGeneral w.r (.ofNat 64 (ia.toNat + 4)) else s

/-- A link is the address after the branch. -/
theorem general_linked (hl : w.links = true) (hr : w.r ≠ 0) (s : Registers) (ia : BitVec 52) :
    ((w.linked s ia).general w.r).toNat = ia.toNat + 4 := by
  have hlt := ia.isLt
  rw [linked, if_pos hl, Registers.general_setGeneral_self hr, BitVec.toNat_ofNat]
  omega

theorem general_linked_of_ne {q : Register} (hq : w.links = true → w.r ≠ q) (s : Registers)
    (ia : BitVec 52) : (w.linked s ia).general q = s.general q := by
  rw [linked]
  split
  · rename_i hl
    exact Registers.general_setGeneral_of_ne (hq hl) _
  · rfl

@[simp]
theorem status_linked (w : InstructionWord) (s : Registers) (ia : BitVec 52) :
    (w.linked s ia).status = s.status := by
  rw [linked]
  split
  · exact Registers.status_setGeneral _ _ _
  · rfl

/-- What a branch writes does not depend on the instruction register. -/
theorem linked_withInstruction (w x : InstructionWord) (s : Registers) (ia : BitVec 52) :
    w.linked { s with instruction := x } ia = { w.linked s ia with instruction := x } := by
  unfold linked Registers.setGeneral
  split
  · split <;> rfl
  · rfl

end InstructionWord

namespace Exec

variable {s : Session δ} {w : InstructionWord} {ia : BitVec 52}

/-! ## Addresses -/

theorem following_eq (ia : BitVec 52) : following ia = .ofNat 64 (ia.toNat + 4) := by
  apply BitVec.eq_of_toNat_eq
  simp [following]

/-- A relative target lies a number of instructions away. -/
theorem relative_eq {n : Nat} (ia : BitVec 52) (d : BitVec n) :
    relative ia d = .ofInt 64 (ia.toNat + 4 * d.toInt) := by
  have hd : d.signExtend 64 = .ofInt 64 d.toInt := rfl
  have hia : ia.setWidth 64 = .ofInt 64 ia.toNat := by
    rw [BitVec.ofInt_natCast, BitVec.ofNat_toNat]
  rw [relative, hd, hia, BitVec.ofInt_add, BitVec.ofInt_mul, BitVec.mul_comm]
  rfl

theorem branchTo_apply (t : Word) : branchTo t s =
    if t.IsReachable then .ok (.branch (t.extractLsb' 0 52)) s
    else .error (.misaligned t .word) s := by
  have hhigh : t.extractLsb' 52 12 = 0 ↔ t.toNat < 2 ^ 52 := by
    rw [← BitVec.toNat_inj, BitVec.extractLsb'_toNat]
    have hlt := t.isLt
    have hzero : (0 : BitVec 12).toNat = 0 := rfl
    rw [hzero, Nat.shiftRight_eq_div_pow]
    omega
  have hiff : (Width.word.isAligned t && t.extractLsb' 52 12 == 0) = true ↔ t.IsReachable := by
    rw [Bool.and_eq_true, beq_iff_eq, hhigh, Width.isAligned, beq_iff_eq]
    rfl
  unfold branchTo
  by_cases h : t.IsReachable
  · rw [if_pos h, if_pos (hiff.mpr h)]
    rfl
  · rw [if_neg h, if_neg (hiff.not.mpr h)]
    rfl

/-! ## Execution -/

/-- How a branch to `t` ends that is taken. -/
def arrival (w : InstructionWord) (ia : BitVec 52) (t : Word) (s : Session δ) :
    EStateM.Result Trap (Session δ) Flow :=
  if t.IsReachable then
    .ok (.branch (t.extractLsb' 0 52)) (s.withRegisters (w.linked s.machine.registers ia))
  else .error (.misaligned t .word) s

theorem branchLinked_eq_arrival (hl : w.links = true) (t : Word) :
    branchLinked ia w.r t s = arrival w ia t s := by
  have hlinked : w.linked s.machine.registers ia =
      s.machine.registers.setGeneral w.r (following ia) := by
    rw [InstructionWord.linked, if_pos hl, following_eq]
  unfold branchLinked arrival
  by_cases h : t.IsReachable
  · have hto : branchTo t s = .ok (.branch (t.extractLsb' 0 52)) s := by
      rw [branchTo_apply, if_pos h]
    rw [bind_of_eq_ok hto, if_pos h, hlinked]
    rfl
  · have hto : branchTo t s = .error (.misaligned t .word) s := by
      rw [branchTo_apply, if_neg h]
    rw [bind_eq_error.mpr (.inl hto), if_neg h]

theorem branchTo_eq_arrival (hl : w.links = false) (t : Word) :
    branchTo t s = arrival w ia t s := by
  have hlinked : w.linked s.machine.registers ia = s.machine.registers := by
    rw [InstructionWord.linked, hl, if_neg Bool.false_ne_true]
  rw [branchTo_apply, arrival, hlinked]
  rfl

theorem unless_taken_apply (taken : Bool) (x : Exec δ Flow) :
    (if taken then x else return .next : Exec δ Flow) s =
      if taken then x s else .ok .next s := by
  cases taken <;> rfl

theorem branchBit_apply (ia : BitVec 52) (hl : w.links = false) :
    branchBit ia (w.qualifier.getLsbD 0) w.r w.testedBit w.imm13 s =
      if (s.machine.registers.general w.r).getLsbD (w.testedPosition s.machine.registers) ==
        w.qualifier.getLsbD 0 then arrival w ia (relative ia w.imm13) s
      else .ok .next s := by
  have hq : w.qualifier.getLsbD 1 = w.qualifier[1] := rfl
  rw [← branchTo_eq_arrival hl, ← unless_taken_apply]
  unfold branchBit InstructionWord.testedBit InstructionWord.testedPosition
  rw [hq]
  rcases w.qualifier[1] with _ | _ <;> rfl

theorem branchTable_apply (ia : BitVec 52) (hl : w.links = false) :
    branchTable ia w.b (w.imm15.extractLsb' 0 14) s =
      arrival w ia (.ofNat 64 (ia.toNat + 4 +
        4 * min (s.machine.registers.general w.b).toNat (w.imm15.toNat % 2 ^ 14))) s := by
  have hlimit : (w.imm15.extractLsb' 0 14).toNat = w.imm15.toNat % 2 ^ 14 := by
    rw [BitVec.extractLsb'_toNat, Nat.shiftRight_zero]
  rw [← branchTo_eq_arrival hl, BitVec.ofNat_add, ← following_eq, ← hlimit]
  rfl

variable [Device δ]

theorem execute_of_ofBranchWord? {i : Instruction} (hg : w.group = 2)
    (hi : Instruction.ofBranchWord? w = some i) (hl : i.isLegal = true) :
    execute w ia s = perform w ia i s := by
  have hw : Instruction.ofWord? w = some i := by
    simpa [Instruction.ofWord?, hg] using hi
  exact execute_of_unprivileged hw hl (Instruction.isPrivileged_of_ofBranchWord? hi)

/-- A branch that leaves an address arrives or traps. -/
theorem execute_of_links (h : w.IsBranch) (hl : w.links = true) (ia : BitVec 52)
    (s : Session δ) :
    execute w ia s = arrival w ia (w.target s.machine.registers ia) s := by
  rw [← branchLinked_eq_arrival hl]
  have hfamily : w.family = 1 ∨ w.family = 2 ∨ w.family = 3 := by
    have hle : w.family.toNat ≤ 3 := by simpa [InstructionWord.links] using hl
    have hmem := h.family
    simp only [List.mem_cons, List.not_mem_nil, or_false] at hmem
    rcases hmem with hf | hf | hf | hf | hf | hf <;> simp [hf] at hle ⊢
  rcases hfamily with hf | hf | hf
  · have hi : Instruction.ofBranchWord? w = some (.branch w.r w.imm19) := by
      simp [Instruction.ofBranchWord?, hf]
    have ht : w.target s.machine.registers ia = relative ia w.imm19 := by
      simp [InstructionWord.target, hf, relative_eq]
    rw [execute_of_ofBranchWord? h.group hi rfl, ht]
    rfl
  · have hi : Instruction.ofBranchWord? w = some (.branchRegister w.r w.b) := by
      simp [Instruction.ofBranchWord?, hf]
    have ht : w.target s.machine.registers ia = s.machine.registers.general w.b := by
      simp [InstructionWord.target, hf]
    rw [execute_of_ofBranchWord? h.group hi rfl, ht]
    rfl
  · have hi : Instruction.ofBranchWord? w = some (.branchIndexed w.r w.b w.a) := by
      simp [Instruction.ofBranchWord?, hf]
    have ht : w.target s.machine.registers ia =
        s.machine.registers.general w.b + s.machine.registers.general w.a * 4 := by
      apply BitVec.eq_of_toNat_eq
      simp [InstructionWord.target, hf, Nat.mul_comm]
    rw [execute_of_ofBranchWord? h.group hi rfl, ht]
    rfl

/-- A branch that is not taken leaves everything, and one that is taken arrives or traps. -/
theorem execute_branch (h : w.IsBranch) (ia : BitVec 52) (s : Session δ) : execute w ia s =
    if w.taken s.machine.registers then arrival w ia (w.target s.machine.registers ia) s
    else .ok .next s := by
  by_cases hlinks : w.links = true
  · rw [if_pos (InstructionWord.taken_of_links hlinks _), execute_of_links h hlinks]
  have hl : w.links = false := by simpa using hlinks
  have hfamily : w.family = 4 ∨ w.family = 5 ∨ w.family = 6 := by
    have hlt : 3 < w.family.toNat := by simpa [InstructionWord.links] using hl
    have hmem := h.family
    simp only [List.mem_cons, List.not_mem_nil, or_false] at hmem
    rcases hmem with hf | hf | hf | hf | hf | hf <;> simp [hf] at hlt ⊢
  rcases hfamily with hf | hf | hf
  · have hi : Instruction.ofBranchWord? w =
        some (.branchBit (w.qualifier.getLsbD 0) w.r w.testedBit w.imm13) := by
      simp [Instruction.ofBranchWord?, hf]
    have htaken : w.taken s.machine.registers =
        ((s.machine.registers.general w.r).getLsbD (w.testedPosition s.machine.registers) ==
          w.qualifier.getLsbD 0) := by
      simp [InstructionWord.taken, hf]
    have ht : w.target s.machine.registers ia = relative ia w.imm13 := by
      simp [InstructionWord.target, hf, relative_eq]
    rw [execute_of_ofBranchWord? h.group hi rfl, htaken, ht]
    exact branchBit_apply ia hl
  · have hi : Instruction.ofBranchWord? w =
        some (.branchCompare (.ofBranchCode w.qualifier) w.r w.b w.imm15) := by
      simp [Instruction.ofBranchWord?, hf]
    have htaken : w.taken s.machine.registers = (Condition.ofBranchCode w.qualifier).holds
        (s.machine.registers.general w.r) (s.machine.registers.general w.b) := by
      simp [InstructionWord.taken, hf]
    have ht : w.target s.machine.registers ia = relative ia w.imm15 := by
      simp [InstructionWord.target, hf, relative_eq]
    rw [execute_of_ofBranchWord? h.group hi rfl, htaken, ht, ← branchTo_eq_arrival hl]
    exact unless_taken_apply _ _
  · have hi : Instruction.ofBranchWord? w =
        some (.branchTable w.b (w.imm15.extractLsb' 0 14)) := by
      simp [Instruction.ofBranchWord?, hf]
    have htaken : w.taken s.machine.registers = true := by simp [InstructionWord.taken, hf]
    have ht : w.target s.machine.registers ia = .ofNat 64 (ia.toNat + 4 +
        4 * min (s.machine.registers.general w.b).toNat (w.imm15.toNat % 2 ^ 14)) := by
      simp [InstructionWord.target, hf]
    rw [execute_of_ofBranchWord? h.group hi rfl, if_pos htaken, ht]
    exact branchTable_apply ia hl

end Exec

/-! ## Cycles -/

namespace Session

variable {s s₁ : Session δ} {w : InstructionWord} {t : Trap} {ia : BitVec 52}

/-- A handler that is entered finds the status word to return to. -/
theorem trapStatus_takeTrap (h : (s.takeTrap t ia).1 = none) :
    (s.takeTrap t ia).2.machine.registers.control .trapStatus =
      (s.machine.registers.status.withAddress (t.resumption ia)).toWord := by
  rcases takeTrap_cases s t ia with ⟨_, _, -, hp, hv, -, -⟩ | ⟨hstop, -⟩
  · obtain ⟨-, _, _, _, hm⟩ := takeTrap_of_vector hp hv (handlerEntry_of_takeTrap h) t ia
    have hsaved := (Registers.control_withTrap s.machine.registers.dropReservation t
      (s.machine.registers.status.withAddress (t.resumption ia))).1
    exact (congrArg (·.registers.control .trapStatus) hm).trans hsaved
  · cases hstop.symm.trans h

/-- A trap of the instruction that the status word is at, other than one that was asked for, leaves
the general registers, and the status word or what the handler finds of it. -/
theorem takeTrap_stays (ht : t.code ≠ .software) (hia : s.machine.registers.status.address = ia) :
    (s.takeTrap t ia).2.machine.registers.generals = s.machine.registers.generals ∧
      ((s.takeTrap t ia).1 ≠ none →
        (s.takeTrap t ia).2.machine.registers.status = s.machine.registers.status) ∧
      ((s.takeTrap t ia).1 = none →
        (s.takeTrap t ia).2.machine.registers.control .trapStatus =
          s.machine.registers.status.toWord) := by
  have hsame : s.machine.registers.status.withAddress (t.resumption ia) =
      s.machine.registers.status := by
    rw [Trap.resumption, if_neg ht, ← hia]
    rfl
  refine ⟨?_, fun hstop => ?_, fun hstop => ?_⟩
  · exact (takeTrap_keeps s t ia).2.2
  · rcases takeTrap_cases s t ia with ⟨_, _, hnone, -⟩ | ⟨-, hm⟩
    · exact absurd hnone hstop
    · exact (congrArg (·.registers.status) hm).trans hsame
  · rw [trapStatus_takeTrap hstop, hsame]

variable [Device δ]

/-- The next cycle fetches a word. -/
def Fetches (s : Session δ) (w : InstructionWord) : Prop :=
  ∃ s₁, Exec.fetch s.machine.registers.status.location s.begun = .ok w s₁

/-- The target of a branch that the next cycle fetches. -/
def branchTarget (s : Session δ) (w : InstructionWord) : Word :=
  w.target s.machine.registers s.machine.registers.status.address

section Fetched

variable (hf : Exec.fetch s.machine.registers.status.location s.begun = .ok w s₁)

include hf

theorem registers_of_fetched : (s₁.withInstruction w).machine.registers =
    { s.machine.registers with instruction := w } := by
  obtain ⟨_, _, -, -, -, hs₁⟩ := Exec.fetch_ok hf
  rw [withInstruction, machine_withRegisters, hs₁]
  rfl

/-- A word that sets a register and goes on does so from the registers before the cycle. -/
theorem cycle_of_set {u : Session δ} {r : Register} {v : Word}
    (he : Exec.execute w s.machine.registers.status.address (s₁.withInstruction w) = .ok .next u)
    (hu : u.machine.registers = (s₁.withInstruction w).machine.registers.setGeneral r v) :
    s.trap? = none ∧ s.cycle.1 = none ∧
      s.cycle.2.machine.registers = { s.machine.registers.setGeneral r v with
        instruction := w
        status := s.machine.registers.status.withAddress
          (s.machine.registers.status.address + 4) } := by
  obtain ⟨htrap, hcycle⟩ := cycle_of_fetch hf
  have hobey : s.cycle = (u.count (·.inGroup w.group)).retire
      s.machine.registers.status.address .next := by rw [hcycle, obey, he]
  refine ⟨by rw [htrap, obeyTrap?, he], by rw [hobey, retire_fst, if_neg nofun], ?_⟩
  rw [hobey, machine_retire, machine_count, hu, registers_of_fetched hf]
  unfold Registers.setGeneral
  split <;> rfl

/-- A word that does nothing but go on moves the status word to the next instruction. -/
theorem cycle_of_next (he : Exec.execute w s.machine.registers.status.address
      (s₁.withInstruction w) = .ok .next (s₁.withInstruction w)) :
    s.trap? = none ∧ s.cycle.2.machine.registers = { s.machine.registers with
      instruction := w
      status := s.machine.registers.status.withAddress
        (s.machine.registers.status.address + 4) } := by
  obtain ⟨htrap, -, hregisters⟩ := cycle_of_set hf (r := 0) (v := 0) he rfl
  exact ⟨htrap, hregisters⟩

theorem execute_fetched (hw : w.IsBranch) :
    Exec.execute w s.machine.registers.status.address (s₁.withInstruction w) =
      if w.taken s.machine.registers then
        Exec.arrival w s.machine.registers.status.address (s.branchTarget w) (s₁.withInstruction w)
      else .ok .next (s₁.withInstruction w) := by
  rw [Exec.execute_branch hw, registers_of_fetched hf]
  rfl

end Fetched

/-- A branch that is not taken goes on to the next instruction. -/
theorem cycle_of_not_taken (hf : s.Fetches w) (hw : w.IsBranch)
    (ht : w.taken s.machine.registers = false) :
    s.trap? = none ∧ s.cycle.2.machine.registers = { s.machine.registers with
      instruction := w
      status := s.machine.registers.status.withAddress
        (s.machine.registers.status.address + 4) } := by
  obtain ⟨s₁, hf⟩ := hf
  have he := execute_fetched hf hw
  rw [ht, if_neg Bool.false_ne_true] at he
  exact cycle_of_next hf he

/-- A branch that is taken goes to its target, and links if it is one that links. -/
theorem cycle_of_reachable (hf : s.Fetches w) (hw : w.IsBranch)
    (ht : w.taken s.machine.registers = true) (hreach : (s.branchTarget w).IsReachable) :
    s.trap? = none ∧ s.cycle.2.machine.registers =
      { w.linked s.machine.registers s.machine.registers.status.address with
        instruction := w
        status := s.machine.registers.status.withAddress
          ((s.branchTarget w).extractLsb' 0 52) } := by
  obtain ⟨s₁, hf⟩ := hf
  obtain ⟨htrap, hcycle⟩ := cycle_of_fetch hf
  have he := execute_fetched hf hw
  rw [ht, if_pos rfl, Exec.arrival, if_pos hreach, registers_of_fetched hf,
    w.linked_withInstruction] at he
  constructor
  · rw [htrap, obeyTrap?, he]
  · rw [hcycle, obey, he]
    dsimp only
    rw [machine_retire, machine_count, machine_withRegisters]
    simp [Flow.status]

/-- A branch to a target no instruction can have traps, and links nothing. -/
theorem cycle_of_unreachable (hf : s.Fetches w) (hw : w.IsBranch)
    (ht : w.taken s.machine.registers = true) (hreach : ¬ (s.branchTarget w).IsReachable) :
    s.trap? = some (.misaligned (s.branchTarget w) .word) ∧
      ∃ u : Session δ, u.machine.registers = { s.machine.registers with instruction := w } ∧
        s.cycle = u.takeTrap (.misaligned (s.branchTarget w) .word)
          s.machine.registers.status.address := by
  obtain ⟨s₁, hf⟩ := hf
  obtain ⟨htrap, hcycle⟩ := cycle_of_fetch hf
  have he := execute_fetched hf hw
  rw [ht, if_pos rfl, Exec.arrival, if_neg hreach] at he
  exact ⟨by rw [htrap, obeyTrap?, he], _, registers_of_fetched hf, by rw [hcycle, obey, he]⟩

/-- How a cycle ends that has fetched the branch `w` with the target `t`. -/
inductive BranchEnds (s : Session δ) (w : InstructionWord) (t : Word) : Prop where
  | passed (taken : w.taken s.machine.registers = false) (retires : s.trap? = none)
    (status : s.cycle.2.machine.registers.status =
      s.machine.registers.status.withAddress (s.machine.registers.status.address + 4))
    (generals : s.cycle.2.machine.registers.generals = s.machine.registers.generals)
  | arrived (taken : w.taken s.machine.registers = true)
    (aligned : t.toNat % 4 = 0) (fits : t.toNat < 2 ^ 52) (retires : s.trap? = none)
    (address : s.cycle.2.machine.registers.status.address.toNat = t.toNat)
    (kept : s.cycle.2.machine.registers.status.status = s.machine.registers.status.status)
    (link : w.links = true → w.r ≠ 0 → (s.cycle.2.machine.registers.general w.r).toNat =
      s.machine.registers.status.address.toNat + 4)
    (others : ∀ q, (w.links = true → w.r ≠ q) →
      s.cycle.2.machine.registers.general q = s.machine.registers.general q)
  | refused (taken : w.taken s.machine.registers = true)
    (unreachable : ¬ (t.toNat % 4 = 0 ∧ t.toNat < 2 ^ 52)) (e : Trap) (traps : s.trap? = some e)
    (code : e.code = .alignment) (address : e.address = some t) (length : e.info2 = 4)
    (generals : s.cycle.2.machine.registers.generals = s.machine.registers.generals)
    (stopped : s.cycle.1 ≠ none →
      s.cycle.2.machine.registers.status = s.machine.registers.status)
    (delivered : s.cycle.1 = none → s.cycle.2.machine.registers.control .trapStatus =
      s.machine.registers.status.toWord)

theorem cycle_of_branch (hf : s.Fetches w) (hw : w.IsBranch) :
    s.BranchEnds w (s.branchTarget w) := by
  rcases ht : w.taken s.machine.registers with _ | _
  · obtain ⟨hnone, hregisters⟩ := cycle_of_not_taken hf hw ht
    exact .passed ht hnone (by rw [hregisters]) (by rw [hregisters])
  by_cases hreach : (s.branchTarget w).IsReachable
  · obtain ⟨hnone, hregisters⟩ := cycle_of_reachable hf hw ht hreach
    have haddress : ((s.branchTarget w).extractLsb' 0 52).toNat = (s.branchTarget w).toNat := by
      rw [BitVec.extractLsb'_toNat, Nat.shiftRight_zero, Nat.mod_eq_of_lt hreach.2]
    refine .arrived ht hreach.1 hreach.2 hnone ?_ ?_ (fun hl hr => ?_) (fun q hq => ?_) <;>
      rw [hregisters]
    · exact haddress
    · rfl
    · exact InstructionWord.general_linked hl hr _ _
    · exact InstructionWord.general_linked_of_ne hq _ _
  · obtain ⟨htrap, u, hu, hcycle⟩ := cycle_of_unreachable hf hw ht hreach
    have hia : u.machine.registers.status.address = s.machine.registers.status.address := by
      rw [hu]
    have hcode : (Trap.misaligned (s.branchTarget w) .word).code ≠ .software := nofun
    obtain ⟨hgenerals, hstopped, hdelivered⟩ := takeTrap_stays hcode hia
    rw [← hcycle, hu] at hgenerals hstopped hdelivered
    exact .refused ht hreach _ htrap rfl (Trap.address_atAddress _ _ (by decide)) rfl hgenerals
      hstopped hdelivered

/-- A machine at a branch to the address in register 1 plus twice four bytes, which it links into
register 1. -/
def ofIndexed : Session Empty where
  machine := {
    settings := {}
    registers :=
      { (Registers.cleared.setGeneral 1 0x100).setGeneral 2 2 with status := ⟨1, 0⟩ }
    tlb := .create 2
    memory := ⟨(ByteStore.zeros 0x8000).withProgram 0 [InstructionWord.pack 2 3 1 0 1 0x400],
      .create 0⟩
    state := .running
    lastTrap := none
    counters := {}
    handlerEntry := none }
  log := #[]

/-- The target is computed before register 1 is linked. -/
theorem ofIndexed_branches :
    ofIndexed.BranchEnds (.pack 2 3 1 0 1 0x400) 0x108 ∧
    ofIndexed.cycle.2.machine.registers.status = ⟨1, 0x108⟩ ∧
    ofIndexed.cycle.2.machine.registers.general 1 = 4 := by
  have hw : InstructionWord.IsBranch (.pack 2 3 1 0 1 0x400) := ⟨by decide, by decide⟩
  have hf : ofIndexed.Fetches (.pack 2 3 1 0 1 0x400) := ⟨_, by rfl⟩
  exact ⟨cycle_of_branch hf hw, by rfl, by rfl⟩

end Session

end Processor64
