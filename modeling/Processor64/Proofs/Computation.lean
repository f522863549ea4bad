import Processor64.Machine.Host

/-!
# Running computations

Running a sequence of computations is running the first and then the second on what it leaves
(`bind_eq_ok`, `bind_eq_error`), and every primitive computation has one equation that says what
it answers and what it leaves. An access first finds its place (`Machine.place`); what it does
after that is what the memory replies.
-/

namespace Processor64

variable {δ α β : Type}

namespace Session

def withTlb (s : Session δ) (t : Tlb) : Session δ :=
  s.mapMachine fun m => { m with tlb := t }

def withRegisters (s : Session δ) (r : Registers) : Session δ :=
  s.mapMachine fun m => { m with registers := r }

/-- Takes over the memory that a reply leaves, and what it reports. -/
def afterReply (s : Session δ) (r : Reply (Memory δ) α) : Session δ :=
  (s.mapMachine fun m => { m with memory := r.after }).emit r.events

/-- A session starts from a configuration without a fault, with the machine built from it. -/
theorem create_eq_ok [Device δ] {c : Config} {s : Session δ} (h : create c = .ok s) :
    c.fault? = none ∧ s.machine = .create c := by
  unfold create at h
  split at h
  · cases h
  · rename_i hc
    obtain rfl := Except.ok.inj h
    exact ⟨hc, rfl⟩

@[simp]
theorem machine_mapMachine (s : Session δ) (f : Machine δ → Machine δ) :
    (s.mapMachine f).machine = f s.machine := rfl

@[simp]
theorem machine_emit (s : Session δ) (es : List Event) : (s.emit es).machine = s.machine := rfl

@[simp]
theorem machine_count (s : Session δ) (f : Counters → Counters) :
    (s.count f).machine = { s.machine with counters := f s.machine.counters } := rfl

@[simp]
theorem machine_withTlb (s : Session δ) (t : Tlb) :
    (s.withTlb t).machine = { s.machine with tlb := t } := rfl

@[simp]
theorem machine_withRegisters (s : Session δ) (r : Registers) :
    (s.withRegisters r).machine = { s.machine with registers := r } := rfl

@[simp]
theorem machine_afterReply (s : Session δ) (r : Reply (Memory δ) α) :
    (s.afterReply r).machine = { s.machine with memory := r.after } := rfl

end Session

namespace Registers

@[simp]
theorem reservation_setGeneral (s : Registers) (r : Register) (v : Word) :
    (s.setGeneral r v).reservation = s.reservation := by
  unfold setGeneral
  split <;> rfl

@[simp]
theorem controls_setGeneral (s : Registers) (r : Register) (v : Word) :
    (s.setGeneral r v).controls = s.controls := by
  unfold setGeneral
  split <;> rfl

@[simp]
theorem status_setGeneral (s : Registers) (r : Register) (v : Word) :
    (s.setGeneral r v).status = s.status := by
  unfold setGeneral
  split <;> rfl

theorem generals_setGeneral_congr {s t : Registers} (h : s.generals = t.generals) (r : Register)
    (v : Word) : (s.setGeneral r v).generals = (t.setGeneral r v).generals := by
  unfold setGeneral
  split
  · exact h
  · simp [h]

@[simp]
theorem controls_noteStore (s : Registers) (a : Word) (n : Nat) :
    (s.noteStore a n).controls = s.controls := by
  unfold noteStore
  split
  · split <;> rfl
  · rfl

@[simp]
theorem status_noteStore (s : Registers) (a : Word) (n : Nat) :
    (s.noteStore a n).status = s.status := by
  unfold noteStore
  split
  · split <;> rfl
  · rfl

/-- Where nothing is reserved, a store has nothing to break. -/
theorem noteStore_of_none {s : Registers} (h : s.reservation = none) (a : Word) (n : Nat) :
    s.noteStore a n = s := by
  rw [noteStore, h]

/-- A store drops the reservation it meets, and no other. -/
theorem noteStore_of_some {s : Registers} {r : Reservation} (h : s.reservation = some r)
    (a : Word) (n : Nat) :
    s.noteStore a n = if r.meets a n then s.dropReservation else s := by
  rw [noteStore, h]

end Registers

/-- The address that a memory operand stands for. -/
def MemoryOperand.address (x : MemoryOperand) (s : Registers) : Word :=
  match x with
  | .indexed base index => s.general base + s.general index
  | .displaced base v => s.general base + v.signExtend 64

/-- What accesses are judged by, of which all stands in registers. -/
def Registers.accessContext (s : Registers) : AccessContext where
  status := s.status
  protectionIds :=
    [.protectionId0, .protectionId1, .protectionId2, .protectionId3].map fun c =>
      (s.control c).setWidth 32

namespace Machine

/-- The physical address of an access, and the translation buffer after it was asked for. -/
def place (m : Machine δ) (a : Word) (w : Width) (k : AccessKind) : Except Trap Word × Tlb :=
  if w.isAligned a then m.tlb.translate a k m.accessContext else (.error (.misaligned a w), m.tlb)

end Machine

namespace Exec

variable {s s' : Session δ} {t : Trap}

/-- A sequence succeeds if its first part does and its second does after it. -/
@[simp]
theorem bind_eq_ok {x : Exec δ α} {f : α → Exec δ β} {b : β} :
    (x >>= f) s = .ok b s' ↔ ∃ a s₁, x s = .ok a s₁ ∧ f a s₁ = .ok b s' := by
  show EStateM.bind x f s = _ ↔ _
  unfold EStateM.bind
  rcases x s with ⟨a, s₁⟩ | ⟨e, s₁⟩ <;> simp [and_assoc]

theorem bind_of_eq_ok {x : Exec δ α} {f : α → Exec δ β} {a : α} (h : x s = .ok a s') :
    (x >>= f) s = f a s' := by
  show EStateM.bind x f s = _
  unfold EStateM.bind
  rw [h]

/-- A sequence traps in its first part, or in its second after it. -/
@[simp]
theorem bind_eq_error {x : Exec δ α} {f : α → Exec δ β} :
    (x >>= f) s = .error t s' ↔
      x s = .error t s' ∨ ∃ a s₁, x s = .ok a s₁ ∧ f a s₁ = .error t s' := by
  show EStateM.bind x f s = _ ↔ _
  unfold EStateM.bind
  rcases x s with ⟨a, s₁⟩ | ⟨e, s₁⟩ <;> simp [and_assoc]

@[simp]
theorem map_eq_ok {x : Exec δ α} {f : α → β} {b : β} :
    (f <$> x) s = .ok b s' ↔ ∃ a, x s = .ok a s' ∧ f a = b := by
  show EStateM.map f x s = _ ↔ _
  unfold EStateM.map
  rcases x s with ⟨a, s₁⟩ | ⟨e, s₁⟩ <;> simp [and_left_comm, and_comm]

@[simp]
theorem map_eq_error {x : Exec δ α} {f : α → β} :
    (f <$> x) s = .error t s' ↔ x s = .error t s' := by
  show EStateM.map f x s = _ ↔ _
  unfold EStateM.map
  rcases x s with ⟨a, s₁⟩ | ⟨e, s₁⟩ <;> simp

@[simp]
theorem discard_eq_ok {x : Exec δ α} {u : PUnit} :
    discard x s = .ok u s' ↔ ∃ a, x s = .ok a s' := by
  show EStateM.map (Function.const α PUnit.unit) x s = _ ↔ _
  unfold EStateM.map
  rcases x s with ⟨a, s₁⟩ | ⟨e, s₁⟩ <;> simp

@[simp]
theorem discard_eq_error {x : Exec δ α} :
    discard x s = .error t s' ↔ x s = .error t s' := by
  show EStateM.map (Function.const α PUnit.unit) x s = _ ↔ _
  unfold EStateM.map
  rcases x s with ⟨a, s₁⟩ | ⟨e, s₁⟩ <;> simp

@[simp]
theorem pure_apply (a : α) : (pure a : Exec δ α) s = .ok a s := rfl

@[simp]
theorem throw_apply : (throw t : Exec δ α) s = .error t s := rfl

@[simp]
theorem ite_apply {c : Prop} [Decidable c] (x y : Exec δ α) :
    (if c then x else y) s = if c then x s else y s := by
  split <;> rfl

@[simp]
theorem ofExcept_eq_ok {r : Except Trap α} {a : α} :
    ofExcept r s = .ok a s' ↔ r = .ok a ∧ s = s' := by
  cases r <;> simp [ofExcept]

@[simp]
theorem ofExcept_eq_error {r : Except Trap α} :
    ofExcept r s = .error t s' ↔ r = .error t ∧ s = s' := by
  cases r <;> simp [ofExcept]

@[simp]
theorem machine_apply : machine s = .ok s.machine s := rfl

@[simp]
theorem mapMachine_apply (f : Machine δ → Machine δ) :
    mapMachine f s = .ok () (s.mapMachine f) := rfl

@[simp]
theorem registers_apply : registers s = .ok s.machine.registers s := rfl

@[simp]
theorem mapRegisters_apply (f : Registers → Registers) :
    mapRegisters f s = .ok () (s.withRegisters (f s.machine.registers)) := rfl

@[simp]
theorem count_apply (f : Counters → Counters) : count f s = .ok () (s.count f) := rfl

@[simp]
theorem emit_apply (es : List Event) : emit es s = .ok () (s.emit es) := rfl

@[simp]
theorem general_apply (r : Register) :
    general r s = .ok (s.machine.registers.general r) s := rfl

@[simp]
theorem setGeneral_apply (r : Register) (v : Word) :
    setGeneral r v s = .ok () (s.withRegisters (s.machine.registers.setGeneral r v)) := rfl

@[simp]
theorem control_apply (c : ControlRegister) :
    control c s = .ok (s.machine.registers.control c) s := rfl

@[simp]
theorem status_apply : status s = .ok s.machine.registers.status s := rfl

@[simp]
theorem result_apply (r : Register) (v : Word) :
    result r v s = .ok .next (s.withRegisters (s.machine.registers.setGeneral r v)) := rfl

@[simp]
theorem operandAddress_apply (x : MemoryOperand) :
    operandAddress x s = .ok (x.address s.machine.registers) s := by
  cases x <;> rfl

/-! ## Accesses -/

section Access

variable {a p : Word} {w : Width} {k : AccessKind}

/-- A translation answers as the buffer does, and leaves it as the buffer leaves itself. -/
theorem translate_apply : translate a w k s = match s.machine.place a w k with
    | (.ok p, t) => .ok p (s.withTlb t)
    | (.error e, t) => .error e (s.withTlb t) := by
  by_cases h : w.isAligned a
  · rcases ht : s.machine.tlb.translate a k s.machine.accessContext with ⟨r, tlb⟩
    rcases r with e | p <;> simp only [Machine.place, h, if_true, ht] <;>
      simp [translate, h, bind, EStateM.bind, ht, ofExcept] <;> rfl
  · simp [translate, Machine.place, h, bind, EStateM.bind]
    rfl

/-- A translation that succeeds changes the buffer and nothing else. -/
@[simp]
theorem translate_eq_ok : translate a w k s = .ok p s' ↔
    (s.machine.place a w k).1 = .ok p ∧ s.withTlb (s.machine.place a w k).2 = s' := by
  rw [translate_apply]
  rcases s.machine.place a w k with ⟨_ | q, tlb⟩ <;> simp

/-- A translation that traps changes the buffer and nothing else. -/
@[simp]
theorem translate_eq_error : translate a w k s = .error t s' ↔
    (s.machine.place a w k).1 = .error t ∧ s.withTlb (s.machine.place a w k).2 = s' := by
  rw [translate_apply]
  rcases s.machine.place a w k with ⟨_ | q, tlb⟩ <;> simp

/-- An access that succeeds leaves the memory of its reply. -/
@[simp]
theorem absorb_eq_ok {r : Except Trap (Reply (Memory δ) α)} {v : α} : absorb r s = .ok v s' ↔
    ∃ reply, r = .ok reply ∧ reply.value = v ∧ s.afterReply reply = s' := by
  rcases r with e | reply
  · simp [absorb]
  · have h : absorb (.ok reply) s = .ok reply.value (s.afterReply reply) := rfl
    simp [h]

/-- An access that traps leaves the session as it is. -/
@[simp]
theorem absorb_eq_error {r : Except Trap (Reply (Memory δ) α)} : absorb r s = .error t s' ↔
    r = .error t ∧ s = s' := by
  cases r <;> simp [absorb]

variable [Device δ]

@[simp]
theorem readMemory_apply (p : Word) (w : Width) (signed : Bool) :
    readMemory p w signed s = absorb (s.machine.memory.read p w signed) s := rfl

@[simp]
theorem previewMemory_apply (p : Word) (w : Width) (signed : Bool) :
    previewMemory p w signed s = absorb (s.machine.memory.preview p w signed) s := rfl

@[simp]
theorem writeMemory_apply (p : Word) (w : Width) (v : Word) :
    writeMemory p w v s = absorb (s.machine.memory.write p w v) s := rfl

end Access

end Exec

end Processor64
