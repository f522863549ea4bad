import Processor64.Proofs.Stepwise

/-!
# What a machine is built with

Its settings, the number of its translation entries and the sizes of its memory are given to a
machine when it is created, and no cycle and no request of the host changes them
(`Session.sameShape_perform`). The host may also reach into the memory itself; then settings and
translation entries still stay (`Session.sameShape_serveAll`).
-/

namespace Processor64

variable {δ α β : Type}

/-- The machines are built alike. -/
structure Machine.SameShape (m n : Machine δ) : Prop where
  settings : n.settings = m.settings
  capacity : n.tlb.capacity = m.tlb.capacity
  memory : m.memory.SameSize n.memory

namespace Machine.SameShape

variable {m n o : Machine δ}

theorem refl (m : Machine δ) : m.SameShape m := ⟨rfl, rfl, .refl _⟩

theorem trans (h : m.SameShape n) (h' : n.SameShape o) : m.SameShape o :=
  ⟨h'.settings.trans h.settings, h'.capacity.trans h.capacity, h.memory.trans h'.memory⟩

theorem of_memory {s : Memory δ} (h : m.memory.SameSize s) :
    m.SameShape { m with memory := s } := ⟨rfl, rfl, h⟩

end Machine.SameShape

namespace Exec

/-- The session that a computation leaves, however it ends. -/
def after (x : Exec δ α) (s : Session δ) : Session δ :=
  match x s with
  | .ok _ s => s
  | .error _ s => s

theorem after_bind (x : Exec δ α) (f : α → Exec δ β) (s : Session δ) : (x >>= f).after s =
    match x s with
      | .ok a s' => (f a).after s'
      | .error _ s' => s' := by
  show (match EStateM.bind x f s with | .ok _ s => s | .error _ s => s) = _
  unfold EStateM.bind
  rcases x s with ⟨a, s'⟩ | ⟨t, s'⟩ <;> rfl

/-- The computation leaves a machine that is built as it was. -/
def KeepsShape {α : Type} (x : Exec δ α) : Prop :=
  ∀ s : Session δ, s.machine.SameShape (x.after s).machine

theorem KeepsShape.bind {x : Exec δ α} {f : α → Exec δ β} (hx : KeepsShape x)
    (hf : ∀ a, KeepsShape (f a)) : KeepsShape (x >>= f) := by
  intro s
  have h := hx s
  rw [after_bind]
  rcases hr : x s with ⟨a, s'⟩ | ⟨t, s'⟩ <;> rw [after, hr] at h
  · exact h.trans (hf a s')
  · exact h

theorem KeepsShape.absorb {r : Except Trap (Reply (Memory δ) α)} {s : Session δ}
    (h : ∀ reply, r = .ok reply → s.machine.memory.SameSize reply.after) :
    s.machine.SameShape ((absorb r).after s).machine := by
  rcases r with t | reply
  · exact .refl _
  · exact .of_memory (h reply rfl)

/-- Every step of a machine keeps its shape. -/
theorem stepwise_keepsShape : Stepwise (δ := δ) KeepsShape where
  pure _ _ := .refl _
  bind := .bind
  throw _ _ := .refl _
  machine _ := .refl _
  mapRegisters _ _ := ⟨rfl, rfl, .refl _⟩
  count _ _ := ⟨rfl, rfl, .refl _⟩
  emit _ _ := .refl _
  askTlb _ h s := ⟨rfl, h s.machine, .refl _⟩
  absorb _ h s := KeepsShape.absorb (h s.machine.memory)

end Exec

namespace Session

theorem sameShape_takeTrap (s : Session δ) (t : Trap) (ia : BitVec 52) :
    s.machine.SameShape (s.takeTrap t ia).2.machine := by
  rcases takeTrap_cases s t ia with ⟨_, _, -, -, -, -, hm⟩ | ⟨-, hm⟩ <;> rw [hm] <;>
    exact ⟨rfl, rfl, .refl _⟩

theorem answer_snd (s : Session δ) (x : Exec δ α) (f : α → Answer) :
    (s.answer x f).2 = x.after s := by
  unfold answer Exec.after
  rcases x s with ⟨v, s'⟩ | ⟨t, s'⟩ <;> rfl

theorem sameShape_answer {x : Exec δ α} (hx : Exec.KeepsShape x) (f : α → Answer)
    (s : Session δ) : s.machine.SameShape (s.answer x f).2.machine := by
  rw [answer_snd]
  exact hx s

theorem sameShape_absorb {r : Except Trap (Reply (Memory δ) α)} {s : Session δ}
    (h : ∀ reply, r = .ok reply → s.machine.memory.SameSize reply.after) (f : α → Answer) :
    s.machine.SameShape (s.answer (Exec.absorb r) f).2.machine := by
  have hs := Exec.KeepsShape.absorb h
  rcases r with t | reply <;> exact hs

variable [Device δ]

/-- A cycle keeps the shape of a machine. -/
theorem sameShape_cycle (s : Session δ) : s.machine.SameShape s.cycle.2.machine := by
  have hrun := Exec.stepwise_keepsShape.instructionAt s.machine.registers.status.address s.begun
  rw [Exec.after] at hrun
  rcases hi : Exec.instructionAt s.machine.registers.status.address s.begun with
    ⟨flow, s'⟩ | ⟨t, s'⟩ <;> rw [hi] at hrun
  · rw [(cycle_of_ok hi).2, machine_retire]
    exact ⟨hrun.settings, hrun.capacity, hrun.memory⟩
  · rw [(cycle_of_error hi).2]
    exact Machine.SameShape.trans ⟨hrun.settings, hrun.capacity, hrun.memory⟩
      (sameShape_takeTrap s' t _)

theorem sameShape_cycles : ∀ (n : Nat) (s : Session δ), s.machine.SameShape (s.cycles n).2.machine
  | 0, _ => .refl _
  | n + 1, s => by
    have hstep := s.sameShape_cycle
    rw [cycles]
    rcases hc : s.cycle with ⟨_ | r, s'⟩ <;> rw [hc] at hstep
    · exact hstep.trans (sameShape_cycles n s')
    · exact hstep

/-- No request changes what a machine is built with. -/
theorem sameShape_perform (s : Session δ) (c : Command δ) :
    s.machine.SameShape (s.perform c).2.machine := by
  have hx := Exec.stepwise_keepsShape (δ := δ)
  cases c
  case reset => exact ⟨rfl, by simp [perform, reset, Machine.reset, Tlb.clearCounters,
    Tlb.capacity, Tlb.reset], .refl _⟩
  case step n =>
    rw [perform, step]
    split
    · exact s.sameShape_cycles n
    · exact .refl _
  case run budget =>
    rw [perform, run]
    split
    · exact s.sameShape_cycles _
    · exact .refl _
  case resume =>
    rw [perform, resume]
    by_cases hs : s.machine.state = .trapped
    · rw [if_pos hs]
      exact ⟨rfl, rfl, .refl _⟩
    · rw [if_neg hs]
      exact .refl _
  case setProgramAddress => exact ⟨rfl, rfl, .refl _⟩
  case setGeneral n v =>
    rcases hr : s.machine.registers.setGeneralAt n v with t | r <;> simp only [perform, hr] <;>
      exact ⟨rfl, rfl, .refl _⟩
  case setControl n v =>
    rcases hr : s.machine.registers.setControlAt n v with t | r <;> simp only [perform, hr] <;>
      exact ⟨rfl, rfl, .refl _⟩
  case load a w signed => exact sameShape_answer (hx.load a w signed) _ s
  case store a w v => exact sameShape_answer (hx.store a v w) _ s
  case fetch a => exact sameShape_answer (hx.fetch a) _ s
  case translate a w k => exact sameShape_answer (hx.translate a w k) _ s
  case hostStore p w v => exact sameShape_answer (hx.hostStore p v w) _ s
  case readMemory p w signed => exact sameShape_answer (hx.readMemory p w signed) _ s
  case previewMemory p w signed => exact sameShape_answer (hx.previewMemory p w signed) _ s
  case writeMemory p w v => exact sameShape_answer (hx.writeMemory p v w) _ s
  case readPhysical => exact sameShape_absorb (fun _ => .of_readPhysical) _
  case writePhysical => exact sameShape_absorb (fun _ => .of_writePhysical) _
  case readIo => exact sameShape_absorb (fun _ => .of_readIo) _
  case writeIo => exact sameShape_absorb (fun _ => .of_writeIo) _
  case loadPhysical p bytes =>
    rcases hl : s.machine.memory.load p bytes with t | memory <;> simp only [perform, hl]
    · exact .refl _
    · exact .of_memory (.of_load hl)
  case installImage path bytes p =>
    simp only [perform, installImage]
    by_cases he : bytes.isEmpty
    · simp only [he, if_true]
      exact .refl _
    · rcases hl : s.machine.memory.load p bytes with t | memory <;>
        simp only [he, Bool.false_eq_true, if_false, machine_emit, hl]
      · exact .refl _
      · exact .of_memory (.of_load hl)
  case attach | pushInput | takeOutput => exact ⟨rfl, rfl, rfl, rfl⟩

end Session

/-! ## Histories -/

/-- What a host does to a machine: it makes a request, or does as it likes with the memory. -/
inductive HostAction (δ : Type) where
  | request (c : Command δ)
  | memory (f : Memory δ → Memory δ)

namespace Session

variable [Device δ]

/-- The answer to an action of the host, and the session after it. -/
def serve (s : Session δ) : HostAction δ → Answer × Session δ
  | .request c => s.perform c
  | .memory f => (.done, s.mapMachine fun m => { m with memory := f m.memory })

/-- The answers to what a host does one after another, and the session after that. -/
def serveAll : Session δ → List (HostAction δ) → List Answer × Session δ
  | s, [] => ([], s)
  | s, a :: as =>
    let (answer, s) := s.serve a
    let (answers, s) := s.serveAll as
    (answer :: answers, s)

/-- Whatever the host does, settings and translation entries stay as they are. -/
theorem sameShape_serveAll (s : Session δ) (as : List (HostAction δ)) :
    (s.serveAll as).2.machine.settings = s.machine.settings ∧
      (s.serveAll as).2.machine.tlb.capacity = s.machine.tlb.capacity := by
  induction as generalizing s with
  | nil => exact ⟨rfl, rfl⟩
  | cons a as ih =>
    obtain ⟨hsettings, hcapacity⟩ := ih (s.serve a).2
    cases a with
    | request c =>
      have h := s.sameShape_perform c
      exact ⟨hsettings.trans h.settings, hcapacity.trans h.capacity⟩
    | memory f => exact ⟨hsettings, hcapacity⟩

end Session

end Processor64
