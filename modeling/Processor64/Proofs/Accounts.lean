import Mathlib.Algebra.BigOperators.Group.List.Basic
import Processor64.Proofs.Causes
import Processor64.Proofs.Completion
import Processor64.Proofs.Lifecycle

/-!
# The accounts of a run

The counts of a machine add up. Every cycle retires an instruction or is recorded as a trap, every
retired instruction belongs to a group, and every one that reaches memory is counted as a load, a
store or a failed conditional store. The sums hold after a reset and every cycle keeps them
(`balanced_cycle`), so they hold after all that the host may ask for in between
(`SinceReset.balanced`); only its own loads and stores are counted without an instruction.
-/

namespace Processor64

variable {δ : Type}

namespace Counters

/-- The counts add up. -/
structure Balanced (c : Counters) : Prop where
  cycles : c.cycles = c.retired + c.trapsTotal
  retired : c.retired = c.arithmetic + c.memory + c.branch + c.system
  memory : c.memory = c.loads + c.stores + c.conditionalFailures
  branchesTaken : c.branchesTaken ≤ c.branch
  trapsVectored : c.trapsVectored ≤ c.trapsTotal
  noTrap : c.trapsOf .noTrap = 0

theorem balanced_zero : ({} : Counters).Balanced := by
  constructor <;> decide

theorem trapsTotal_recordTrap (c : Counters) (code : TrapCode) :
    (c.recordTrap code).trapsTotal = c.trapsTotal + 1 := by
  have hlt : code.number.val < c.traps.toList.length := by simp
  have hsplit : c.traps.toList.sum = (c.traps.toList.take code.number).sum +
      (c.traps[code.number] + (c.traps.toList.drop (code.number + 1)).sum) := by
    rw [← List.sum_take_add_sum_drop c.traps.toList code.number, List.drop_eq_getElem_cons hlt,
      List.sum_cons]
    simp
  simp only [trapsTotal, recordTrap, ← Vector.foldl_toList, ← List.sum_eq_foldl,
    Vector.toList_set, List.sum_set, hlt, if_true, hsplit]
  omega

theorem trapsOf_recordTrap_ne (c : Counters) {code other : TrapCode} (h : code ≠ other) :
    (c.recordTrap code).trapsOf other = c.trapsOf other := by
  have hne : code.number.val ≠ other.number.val := by
    revert h
    cases code <;> cases other <;> decide
  simp [recordTrap, trapsOf, hne]

/-- The counts differ in `n` accesses, of whatever kinds. -/
def Accesses (c d : Counters) (n : Nat) : Prop :=
  ∃ loads stores failures, loads + stores + failures = n ∧ d = { c with
    loads := c.loads + loads
    stores := c.stores + stores
    conditionalFailures := c.conditionalFailures + failures }

/-- A cycle that retires an instruction of a group keeps the sums if just the instructions of
group 1 are accesses, and just those of group 2 may branch. -/
theorem Balanced.retire {c d : Counters} {g : BitVec 2} {taken : Nat} (hc : c.Balanced)
    (hd : { c with cycles := c.cycles + 1 }.Accesses d (if g = 1 then 1 else 0))
    (ht : taken = 0 ∨ taken = 1 ∧ g = 2) :
    { d.inGroup g with
      retired := (d.inGroup g).retired + 1
      branchesTaken := (d.inGroup g).branchesTaken + taken }.Balanced := by
  obtain ⟨loads, stores, failures, hn, rfl⟩ := hd
  obtain ⟨hcycles, hretired, hmemory, hbranches, hvectored, hnone⟩ := hc
  have hgroups : ∀ g : BitVec 2, g = 0 ∨ g = 1 ∨ g = 2 ∨ g = 3 := by decide
  simp only [trapsTotal] at hcycles hvectored
  obtain rfl | rfl | rfl | rfl := hgroups g <;>
    simp only [BitVec.ofNat_eq_ofNat, BitVec.reduceEq, if_true, if_false, and_true, and_false,
      or_false] at hn ht
  all_goals
    constructor
    case noTrap => exact hnone
    all_goals
      simp only [inGroup, trapsTotal, BitVec.toNat_ofNat, BitVec.ofNat_eq_ofNat, Nat.reducePow,
        Nat.reduceMod]
      omega

/-- A cycle that traps keeps the sums, whether the trap is delivered or not. -/
theorem Balanced.trap {c : Counters} {code : TrapCode} {delivered : Nat} (hc : c.Balanced)
    (hcode : code ≠ .noTrap) (hd : delivered ≤ 1) :
    { ({ c with cycles := c.cycles + 1 } : Counters).recordTrap code with
      trapsVectored := c.trapsVectored + delivered }.Balanced := by
  have htotal := c.trapsTotal_recordTrap code
  have hnone := (c.trapsOf_recordTrap_ne hcode).trans hc.noTrap
  have hcycles := hc.cycles
  have hvectored := hc.trapsVectored
  exact {
    cycles := by
      show c.cycles + 1 = c.retired + (c.recordTrap code).trapsTotal
      omega
    retired := hc.retired
    memory := hc.memory
    branchesTaken := hc.branchesTaken
    trapsVectored := by
      show c.trapsVectored + delivered ≤ (c.recordTrap code).trapsTotal
      omega
    noTrap := hnone }

end Counters

/-- The instructions that access memory are those of the second group. -/
theorem Instruction.isAccess_iff_group (i : Instruction) : i.isAccess = true ↔ i.group = 1 := by
  cases i <;> simp [isAccess, group]

variable [Device δ]

namespace Machine.Performs

variable {m n : Machine δ} {i : Instruction} {flow : Flow}

/-- An instruction of the second group is counted as one access, any other as none. -/
theorem accesses (h : m.Performs i flow n) :
    m.counters.Accesses n.counters (if i.group = 1 then 1 else 0) := by
  simp only [← i.isAccess_iff_group]
  cases h with
  | calculation access => exact ⟨0, 0, 0, by simp [access], rfl⟩
  | read reads => exact ⟨1, 0, 0, by cases i <;> cases reads <;> rfl, rfl⟩
  | loadReserve => exact ⟨1, 0, 0, rfl, rfl⟩
  | store | storeConditional => exact ⟨0, 1, 0, rfl, rfl⟩
  | failedConditional => exact ⟨0, 0, 1, rfl, rfl⟩
  | mapping mapping => exact ⟨0, 0, 0, by cases i <;> cases mapping <;> rfl, rfl⟩
  | _ => exact ⟨0, 0, 0, rfl, rfl⟩

/-- Only a branch counts as taken. -/
theorem taken (h : m.Performs i flow n) : flow.taken = 0 ∨ flow.taken = 1 ∧ i.group = 2 := by
  cases h with
  | @calculation _ o _ comesTo =>
    cases comesTo with
    | outcome _ target =>
      rcases o with ⟨_ | t, _, _⟩
      · exact .inl rfl
      · exact .inr ⟨rfl, target.resolve_left (by simp)⟩
  | _ => exact .inl rfl

end Machine.Performs

namespace Session

variable {s s' : Session δ}

/-- Every cycle keeps the sums, on whichever way it ends. -/
theorem balanced_cycle (h : s.machine.counters.Balanced) :
    s.cycle.2.machine.counters.Balanced := by
  rcases ht : s.trap? with _ | t
  · obtain ⟨word, i, s₁, flow, n, hf, hi, -, hperforms, hc⟩ := performs_of_cycle ht
    obtain ⟨_, _, -, -, -, hs₁⟩ := Exec.fetch_ok hf
    have haccesses := hperforms.accesses
    rw [withInstruction, machine_withRegisters, hs₁, (Instruction.fits_of_ofWord? hi).group]
      at haccesses
    have htaken := hperforms.taken
    rw [(Instruction.fits_of_ofWord? hi).group] at htaken
    rw [hc]
    exact h.retire haccesses htaken
  · obtain ⟨s₁, he, hc⟩ := cycle_of_trap ht
    have hcounters := (Exec.keeps_of_instructionAt_error he).counters
    have hcode := code_ne_noTrap ht
    rw [hc]
    rcases takeTrap_cases s₁ t s.machine.registers.status.address with
      ⟨_, _, -, -, -, -, hm⟩ | ⟨-, hm⟩ <;> rw [hm, hcounters]
    · exact h.trap hcode (Nat.le_refl 1)
    · exact h.trap hcode (Nat.zero_le 1)

/-- Any number of cycles keeps the accounts balanced. -/
theorem balanced_cycles : ∀ (n : Nat) {s : Session δ}, s.machine.counters.Balanced →
    (s.cycles n).2.machine.counters.Balanced
  | 0, _, h => h
  | n + 1, s, h => by
    have hcycle := balanced_cycle h
    rw [Session.cycles]
    rcases hc : s.cycle with ⟨_ | r, s'⟩ <;> rw [hc] at hcycle
    · exact balanced_cycles n hcycle
    · exact hcycle

end Session

/-- The requests that drive a machine, or reach its registers, its memory or its console from
outside. -/
inductive Command.Drives : Command δ → Prop where
  | step (n : Nat) : Drives (.step n)
  | run (budget : Option Nat) : Drives (.run budget)
  | resume : Drives .resume
  | setProgramAddress (a : Word) : Drives (.setProgramAddress a)
  | setGeneral (n v : Word) : Drives (.setGeneral n v)
  | setControl (n : BitVec 32) (v : Word) : Drives (.setControl n v)
  | hostStore (p : Word) (w : Width) (v : Word) : Drives (.hostStore p w v)
  | pushInput (bytes : List UInt8) : Drives (.pushInput bytes)

namespace Session

variable {s : Session δ}

theorem counters_answer_hostStore (s : Session δ) (p v : Word) (w : Width) (f : Unit → Answer) :
    (s.answer (Exec.hostStore p w v) f).2.machine.counters = s.machine.counters := by
  unfold answer
  rcases h : Exec.hostStore p w v s with ⟨u, s'⟩ | ⟨t, s'⟩
  · obtain ⟨_, -, hs⟩ := Exec.hostStore_ok h
    exact congrArg (·.counters) hs
  · exact congrArg (·.machine.counters) (Exec.hostStore_error h)

theorem balanced_perform {c : Command δ} (hc : c.Drives) (h : s.machine.counters.Balanced) :
    (s.perform c).2.machine.counters.Balanced := by
  cases hc with
  | step n =>
    rw [perform, step]
    split
    · exact balanced_cycles n h
    · exact h
  | run budget =>
    rw [perform, run]
    split
    · exact balanced_cycles _ h
    · exact h
  | resume =>
    rw [perform, resume]
    by_cases hs : s.machine.state = .trapped
    · rw [if_pos hs]
      exact h
    · rw [if_neg hs]
      exact h
  | setProgramAddress | pushInput => exact h
  | setGeneral n v =>
    rw [perform]
    split <;> exact h
  | setControl n v =>
    rw [perform]
    split <;> exact h
  | hostStore p w v =>
    rw [perform, counters_answer_hostStore]
    exact h

/-- The sessions that a reset one is led to. -/
inductive SinceReset : Session δ → Prop where
  | reset (s : Session δ) : SinceReset s.reset
  | perform {s : Session δ} (h : SinceReset s) {c : Command δ} (hc : c.Drives) :
    SinceReset (s.perform c).2

/-- Since a reset the counts add up, after every request. -/
theorem SinceReset.balanced (h : SinceReset s) : s.machine.counters.Balanced := by
  induction h with
  | reset => exact Counters.balanced_zero
  | perform _ hc ih => exact balanced_perform hc ih

/-- A default machine that stores a register and then asks for a trap; its host sends it back to
store once more. -/
def ofErrand : Session Empty :=
  let s := (⟨.create {}, #[]⟩ : Session Empty).reset
  let s := (s.perform (.hostStore 0 .word
    ((InstructionWord.pack 1 9 1 0 0 0x4100).setWidth 64))).2
  let s := (s.perform (.hostStore 4 .word ((InstructionWord.pack 3 14 0 0 0 5).setWidth 64))).2
  let s := (s.perform (.step 9)).2
  let s := (s.perform (.setProgramAddress 0)).2
  let s := (s.perform .resume).2
  (s.perform (.run (some 1))).2

theorem ofErrand_balanced : SinceReset ofErrand ∧ ofErrand.machine.counters.cycles = 3 ∧
    ofErrand.machine.counters.stores = 2 ∧ ofErrand.machine.counters.Balanced :=
  have h : SinceReset ofErrand :=
    .perform (.perform (.perform (.perform (.perform (.perform (.reset _)
      (.hostStore _ _ _)) (.hostStore _ _ _)) (.step 9)) (.setProgramAddress 0)) .resume)
      (.run (some 1))
  ⟨h, by rfl, by rfl, h.balanced⟩

end Session

end Processor64
