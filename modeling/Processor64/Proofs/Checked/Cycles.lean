import Processor64.Proofs.Checked.Instructions
import Processor64.Proofs.Checked.Texts
import Processor64.Proofs.Fresh

/-!
# Cycles that do not fail

The cycle with all its steps checked, from the fetch to the entry of a handler (`Checked.cycle`). On
a sound machine none of the checks fails, and the cycle is the one without checks
(`Checked.cycle_eq`). A machine of a valid configuration is sound, and whatever its host and its
programs do leaves it sound, as long as the sizes of its memory stay countable. So no cycle fails
that it can come to, nor would any other word have failed in the place of the one fetched
(`Session.never_fails`). The counts of events and the clock of the translation buffer have no upper
end here.
-/

namespace Processor64

variable {δ : Type}

namespace Checked

/-! ## The end of a cycle -/

def recordTrap (c : Counters) (code : TrapCode) : Except Failure Counters :=
  if h : (code.number : Nat) < 10 then
    .ok { c with traps := c.traps.set code.number (c.traps[(code.number : Nat)] + 1) }
  else .error .index

def deliver (s : Session δ) (t : Trap) (saved : StatusWord) (table : Word) :
    Except Failure (Session δ) := do
  let distance ← product 64 t.code.number 32
  let vector := table + BitVec.ofNat 64 distance
  let r ← withControl s.machine.registers .trapStatus saved.toWord
  let r ← withControl r .trapCode (BitVec.ofNat 64 t.code.number)
  let r ← withControl r .trapInfo1 (t.info1.setWidth 64)
  let r ← withControl r .trapInfo2 (t.info2.setWidth 64)
  let r ← withControl r .trapInfo3 (t.info3.setWidth 64)
  let s := s.mapMachine fun m =>
    { m with
      registers := { r with status := .atStart vector }
      handlerEntry := some vector
      counters := { m.counters with trapsVectored := m.counters.trapsVectored + 1 } }
  return s.emit [.trapDelivered t.code vector]

def takeTrap (s : Session δ) (t : Trap) (ia : BitVec 52) :
    Except Failure (Option StopReason × Session δ) := do
  let record : TrapRecord := ⟨t, ia.setWidth 64⟩
  let entered := s.machine.handlerEntry
  let counters ← recordTrap s.machine.counters t.code
  let s := s.mapMachine fun m =>
    { m with
      registers := m.registers.dropReservation
      counters := counters
      lastTrap := some record
      handlerEntry := none }
  let s := s.emit [.trapRaised t record.address]
  let status := s.machine.registers.status.withAddress
    (if t.code = .software then ia + 4 else ia)
  let table ← controlOf s.machine.registers .vectorAddress
  if s.machine.settings.trapPolicy = .vector ∧ table ≠ 0 then
    match entered with
    | none => return (none, ← deliver s t status table)
    | some entry => return (s.emit [.trapAtHandlerEntry t.code entry]).stopTrapped record status
  else return s.stopTrapped record status

/-- A traced instruction is written out as it is reported. -/
def retire (s : Session δ) (ia : BitVec 52) (flow : Flow) :
    Except Failure (Option StopReason × Session δ) := do
  if s.machine.settings.traceInstructions then
    let _ ← text s.machine.registers.instruction
  return s.retire ia flow

variable (s : Session δ)

theorem recordTrap_eq (c : Counters) (code : TrapCode) :
    recordTrap c code = .ok (c.recordTrap code) := dif_pos code.number.isLt

theorem deliver_eq (t : Trap) (saved : StatusWord) (table : Word) :
    deliver s t saved table = .ok (s.deliver t saved table) := by
  have hlt := t.code.number.isLt
  simp only [deliver, product_of_lt (show (t.code.number : Nat) * 32 < 2 ^ 64 by omega), ok_bind,
    withControl_eq, Session.deliver, vectorStride, Nat.mul_comm 32]
  rfl

/-- No trap is taken with a failure. -/
theorem takeTrap_eq (t : Trap) (ia : BitVec 52) : takeTrap s t ia = .ok (s.takeTrap t ia) := by
  simp only [takeTrap, recordTrap_eq, ok_bind, controlOf_eq, deliver_eq, pure_eq_ok]
  rw [Session.takeTrap, apply_ite Except.ok]
  refine ite_congr rfl (fun _ => ?_) fun _ => rfl
  rcases s.machine.handlerEntry with _ | entry <;> rfl

/-- No instruction is completed with a failure. -/
theorem retire_eq (ia : BitVec 52) (flow : Flow) : retire s ia flow = .ok (s.retire ia flow) := by
  rw [retire, text_eq]
  split <;> rfl

variable [Device δ]

/-- One cycle, with every check on its way. -/
def cycle : Except Failure (Option StopReason × Session δ) := do
  let ia := s.machine.registers.status.address
  match ← instructionAt ia s.begun with
  | .ok flow s => retire s ia flow
  | .error t s => takeTrap s t ia

/-- On a sound machine the checked cycle is the cycle. -/
theorem cycle_eq {s : Session δ} (h : s.machine.Sound) : cycle s = .ok s.cycle := by
  have hsound : s.begun.machine.Sound := ⟨h.slots, h.memory⟩
  rw [cycle, (instructionAt_agrees s.machine.registers.status.address s.begun hsound).eq, ok_bind]
  rcases hi : Exec.instructionAt s.machine.registers.status.address s.begun with
    ⟨flow, s₁⟩ | ⟨t, s₁⟩
  · rw [(Session.cycle_of_ok hi).2]
    exact retire_eq s₁ _ flow
  · rw [(Session.cycle_of_error hi).2]
    exact takeTrap_eq s₁ t _

end Checked

/-! ## Machines that the host has -/

/-- A new machine is sound. -/
theorem Machine.sound_create {c : Config} (h : c.fault? = none) :
    (Machine.create c : Machine δ).Sound where
  slots := by
    rw [← List.length_pos_iff]
    show 0 < (List.replicate (max c.tlb.entries 1) Slot.empty).length
    rw [List.length_replicate]
    exact Nat.lt_of_lt_of_le Nat.one_pos (Nat.le_max_right ..)
  memory := by
    have hfits := Config.fits_of_fault? h
    have hsizes : ioStart < 2 ^ 63 ∧ ioWindowSize < 2 ^ 63 := by decide
    constructor
    · exact Nat.lt_of_le_of_lt hfits.physicalSize hsizes.1
    · refine Nat.lt_of_le_of_lt ?_ hsizes.2
      show (Memory.create c : Memory δ).io.backing.size ≤ _
      unfold Memory.create
      dsimp only
      split
      · exact hfits.ioSize
      · exact hfits.ioSize

/-- What the host does as it likes leaves the sizes of a memory countable. -/
def HostAction.Countable : HostAction δ → Prop
  | .request _ => True
  | .memory f => ∀ m : Memory δ, m.Countable → (f m).Countable

namespace Session

variable [Device δ]

/-- The next cycle passes all checks, and so does every word that it might have to execute. -/
structure NeverFails (s : Session δ) : Prop where
  cycle : Checked.cycle s = .ok s.cycle
  execute : ∀ (ia : BitVec 52) (word : InstructionWord),
    Checked.execute ia word s = .ok (Exec.execute word ia s)
  text : ∀ word : InstructionWord, Checked.text word = .ok word.text

/-- An action of the host keeps a machine sound. -/
theorem sound_serve {s : Session δ} {a : HostAction δ} (h : s.machine.Sound) (ha : a.Countable) :
    (s.serve a).2.machine.Sound := by
  cases a with
  | request c => exact h.of_sameShape (s.sameShape_perform c)
  | memory f => exact ⟨h.slots, ha _ h.memory⟩

theorem sound_serveAll {s : Session δ} (h : s.machine.Sound) {as : List (HostAction δ)}
    (ha : ∀ a ∈ as, a.Countable) : (s.serveAll as).2.machine.Sound := by
  induction as generalizing s with
  | nil => exact h
  | cons a as ih =>
    exact ih (sound_serve h (ha a List.mem_cons_self)) fun b hb => ha b (List.mem_cons_of_mem a hb)

/-- Whatever its host and its programs have done, a machine of a valid configuration passes all the
checks of its next cycle. -/
theorem never_fails {c : Config} {s₀ : Session δ} (h : create c = .ok s₀)
    (as : List (HostAction δ)) (ha : ∀ a ∈ as, a.Countable) : (s₀.serveAll as).2.NeverFails := by
  obtain ⟨hc, hmachine⟩ := create_eq_ok h
  have hsound : (s₀.serveAll as).2.machine.Sound :=
    sound_serveAll (hmachine ▸ Machine.sound_create hc) ha
  exact ⟨Checked.cycle_eq hsound, fun ia word => (Checked.execute_agrees ia word _ hsound).eq,
    Checked.text_eq⟩

/-- The two instructions that ran are followed by a third. -/
theorem ofNew_never_fails :
    create {} = .ok ofNew ∧
    (∀ a ∈ errands, a.Countable) ∧
    (ofNew.serveAll errands).2.machine.registers.status.address = 8 ∧
    (ofNew.serveAll errands).2.NeverFails :=
  have hcountable : ∀ a ∈ errands, a.Countable := by simp [errands, HostAction.Countable]
  ⟨rfl, hcountable, by rfl, never_fails (show create {} = .ok ofNew from rfl) errands hcountable⟩

end Session

end Processor64
