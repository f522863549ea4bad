import Processor64.Proofs.Completion
import Processor64.Proofs.Reservations
import Processor64.Proofs.Shape

/-!
# What holds of every machine in use

The physical memory of a machine is a whole number of pages below the I/O window, and a reservation
is as long as an access (`Machine.Regular`). A new machine of a valid configuration is regular, and
it stays so whatever the host requests, since requests do not resize memory and only a load with
reserve makes a reservation (`Session.regular_serveAll`).
-/

namespace Processor64

variable {δ α β : Type}

/-! ## Reservations -/

/-- A reservation has the length of an access. -/
def Registers.Reserved (s : Registers) : Prop :=
  ∀ r, s.reservation = some r → ∃ w : Width, r.length = w.bytes

namespace Registers.Reserved

variable {s t : Registers}

theorem congr (h : s.Reserved) (ht : t.reservation = s.reservation) : t.Reserved :=
  fun r hr => h r (ht.symm.trans hr)

theorem of_none (h : s.reservation = none) : s.Reserved := fun r hr => by
  rw [h] at hr
  cases hr

theorem noteStore (h : s.Reserved) (p : Word) (n : Nat) : (s.noteStore p n).Reserved := by
  rcases hs : s.reservation with _ | r
  · rwa [noteStore_of_none hs]
  · rw [noteStore_of_some hs]
    split
    · exact of_none rfl
    · exact h

/-- Of the instructions only a load with reserve makes a reservation. -/
theorem of_performs [Device δ] {m n : Machine δ} {i : Instruction} {flow : Flow}
    (h : m.registers.Reserved) (hp : m.Performs i flow n) : n.registers.Reserved := by
  cases hp with
  | calculation | read | physicalAddress => exact h.congr (reservation_setGeneral _ _ _)
  | modifyStatus => exact h.congr (reservation_setGeneral _ _ _)
  | store => exact h.noteStore _ _
  | @loadReserve w r x p reply _ =>
    intro q hq
    rw [reservation_setGeneral] at hq
    obtain rfl := Option.some.inj hq
    exact ⟨w, rfl⟩
  | storeConditional | failedConditional => exact of_none (reservation_setGeneral _ _ _)
  | moveToControl | mapping | returnFromTrap | halt | diagnose => exact h

end Registers.Reserved

namespace Exec

/-- The computation leaves no reservation that does not have the length of an access. -/
def KeepsReserved (x : Exec δ α) : Prop :=
  ∀ s : Session δ, s.machine.registers.Reserved → (x.after s).machine.registers.Reserved

namespace KeepsReserved

theorem bind {x : Exec δ α} {f : α → Exec δ β} (hx : KeepsReserved x)
    (hf : ∀ a, KeepsReserved (f a)) : KeepsReserved (x >>= f) := by
  intro s hs
  have h := hx s hs
  rw [after_bind]
  rcases hr : x s with ⟨a, s'⟩ | ⟨t, s'⟩ <;> rw [after, hr] at h
  · exact hf a s' h
  · exact h

theorem pure (a : α) : KeepsReserved (pure a : Exec δ α) := fun _ hs => hs

theorem count (f : Counters → Counters) : KeepsReserved (count f : Exec δ Unit) := fun _ hs => hs

theorem translate (a : Word) (w : Width) (k : AccessKind) :
    KeepsReserved (translate a w k : Exec δ Word) := by
  intro s hs
  rw [after, translate_apply]
  rcases s.machine.place a w k with ⟨_ | p, t⟩ <;> exact hs

theorem absorb (r : Except Trap (Reply (Memory δ) α)) : KeepsReserved (absorb r) := by
  rcases r with t | reply <;> exact fun _ hs => hs

variable [Device δ] (a p v : Word) (w : Width) (signed : Bool)

theorem readMemory : KeepsReserved (readMemory p w signed : Exec δ Word) :=
  fun s => absorb (s.machine.memory.read p w signed) s

theorem previewMemory : KeepsReserved (previewMemory p w signed : Exec δ Word) :=
  fun s => absorb (s.machine.memory.preview p w signed) s

theorem writeMemory : KeepsReserved (writeMemory p w v : Exec δ Unit) :=
  fun s => absorb (s.machine.memory.write p w v) s

theorem load : KeepsReserved (load a w signed : Exec δ Word) :=
  .bind (.bind (.translate a w .read) fun p => .bind (.readMemory p w signed) fun _ =>
    .bind (.count _) fun _ => .pure _) fun _ => .pure _

theorem hostStore : KeepsReserved (hostStore p w v : Exec δ Unit) :=
  .bind (.writeMemory p v w) fun _ _ hs => hs.noteStore p w.bytes

theorem store : KeepsReserved (store a w v : Exec δ Unit) :=
  .bind (.translate a w .write) fun p => .bind (.hostStore p v w) fun _ => .count _

theorem fetch : KeepsReserved (fetch a : Exec δ (BitVec 32)) :=
  .bind (.translate a .word .execute) fun p => .bind (.readMemory p .word false) fun _ => .pure _

end KeepsReserved

end Exec

namespace Session

theorem reserved_answer {x : Exec δ α} (hx : Exec.KeepsReserved x) (f : α → Answer)
    {s : Session δ} (h : s.machine.registers.Reserved) :
    (s.answer x f).2.machine.registers.Reserved := by
  rw [answer_snd]
  exact hx s h

variable [Device δ] {s : Session δ}

/-- A cycle keeps a reservation in order. -/
theorem reserved_cycle (h : s.machine.registers.Reserved) :
    s.cycle.2.machine.registers.Reserved := by
  rcases ht : s.trap? with _ | t
  · obtain ⟨word, i, s₁, flow, n, hf, -, -, hp, hm⟩ := performs_of_cycle ht
    obtain ⟨_, _, -, -, -, hs₁⟩ := Exec.fetch_ok hf
    have h₁ : (s₁.withInstruction word).machine.registers.Reserved :=
      h.congr (congrArg (·.registers.reservation) hs₁)
    rw [hm]
    exact (h₁.of_performs hp).congr rfl
  · obtain ⟨s₁, -, hc⟩ := cycle_of_trap ht
    rw [hc]
    rcases takeTrap_cases s₁ t s.machine.registers.status.address with
      ⟨_, _, -, -, -, -, hm⟩ | ⟨-, hm⟩ <;> rw [hm] <;> exact .of_none rfl

theorem reserved_cycles (n : Nat) (h : s.machine.registers.Reserved) :
    (s.cycles n).2.machine.registers.Reserved := by
  induction n generalizing s with
  | zero => exact h
  | succ n ih =>
    have hstep := reserved_cycle h
    rw [cycles]
    rcases hc : s.cycle with ⟨_ | r, s'⟩ <;> rw [hc] at hstep
    · exact ih hstep
    · exact hstep

/-- A request of the host keeps a reservation in order. -/
theorem reserved_perform (c : Command δ) (h : s.machine.registers.Reserved) :
    (s.perform c).2.machine.registers.Reserved := by
  cases c
  case reset => exact .of_none rfl
  case step n =>
    rw [perform, step]
    split
    · exact reserved_cycles n h
    · exact h
  case run budget =>
    rw [perform, run]
    split
    · exact reserved_cycles _ h
    · exact h
  case resume => exact h.congr s.perform_resume.1
  case setProgramAddress => exact h.congr rfl
  case setGeneral n v => exact h.congr (s.perform_setGeneral n v).1
  case setControl n v => exact h.congr (s.perform_setControl n v).1
  case load a w signed => exact reserved_answer (.load a w signed) _ h
  case store a w v => exact reserved_answer (.store a v w) _ h
  case fetch a => exact reserved_answer (.fetch a) _ h
  case translate a w k => exact reserved_answer (.translate a w k) _ h
  case hostStore p w v => exact reserved_answer (.hostStore p v w) _ h
  case readMemory p w signed => exact reserved_answer (.readMemory p w signed) _ h
  case previewMemory p w signed => exact reserved_answer (.previewMemory p w signed) _ h
  case writeMemory p w v => exact reserved_answer (.writeMemory p v w) _ h
  case readPhysical | writePhysical | readIo | writeIo => exact reserved_answer (.absorb _) _ h
  case loadPhysical p bytes =>
    simp only [perform]
    rcases s.machine.memory.load p bytes with t | memory <;> exact h
  case installImage path bytes p =>
    simp only [perform, installImage]
    by_cases he : bytes.isEmpty
    · simp only [he, if_true]
      exact h
    · simp only [he, Bool.false_eq_true, if_false, machine_emit]
      rcases s.machine.memory.load p bytes with t | memory <;> exact h
  case attach | pushInput | takeOutput => exact h

end Session

/-! ## Regular machines -/

/-- Physical memory consists of pages below the I/O window, and a reservation has the length of an
access. -/
structure Machine.Regular (m : Machine δ) : Prop where
  below : m.memory.physical.size ≤ ioStart
  pages : m.memory.physical.size % pageSize = 0
  reserved : m.registers.Reserved

/-- A configuration without a fault has whole pages of physical memory. -/
theorem Config.pages_of_fault? {c : Config} (h : c.fault? = none) :
    c.memory.physicalSize % pageSize = 0 := by
  by_contra hne
  simp [fault?, hne] at h

/-- The host does not resize physical memory by itself. -/
def HostAction.KeepsSize : HostAction δ → Prop
  | request _ => True
  | memory f => ∀ m, (f m).physical.size = m.physical.size

namespace Session

variable [Device δ] {s : Session δ}

/-- A new machine is regular. -/
theorem regular_create {c : Config} (h : create c = .ok s) : s.machine.Regular := by
  obtain ⟨hc, hm⟩ := create_eq_ok h
  have hsize : s.machine.memory.physical.size = c.memory.physicalSize := by
    rw [hm]
    rfl
  refine ⟨size_create h, ?_, ?_⟩
  · rw [hsize]
    exact Config.pages_of_fault? hc
  · rw [hm]
    exact .of_none rfl

/-- An action of the host that keeps the sizes keeps a machine regular. -/
theorem regular_serve {x : HostAction δ} (h : s.machine.Regular) (hx : x.KeepsSize) :
    (s.serve x).2.machine.Regular := by
  cases x with
  | request c =>
    have hsize := (s.sameShape_perform c).memory.physical
    exact ⟨hsize ▸ h.below, hsize ▸ h.pages, reserved_perform c h.reserved⟩
  | memory f =>
    have hsize := hx s.machine.memory
    exact ⟨hsize ▸ h.below, hsize ▸ h.pages, h.reserved⟩

/-- A machine of a valid configuration is regular after any history that does not resize its
memory. -/
theorem regular_serveAll {as : List (HostAction δ)} (h : s.machine.Regular)
    (has : ∀ x ∈ as, x.KeepsSize) : (s.serveAll as).2.machine.Regular := by
  induction as generalizing s with
  | nil => exact h
  | cons x as ih =>
    exact ih (regular_serve h (has x List.mem_cons_self)) fun y hy =>
      has y (List.mem_cons_of_mem x hy)

end Session

end Processor64
