import Processor64.Proofs.Checked.Stores
import Processor64.Proofs.Preview
import Processor64.Proofs.Shape

/-!
# Accesses, step by step

Computations whose steps are checked (`CheckedExec`), and when they agree with computations that
are not (`CheckedExec.Agrees`): on every sound machine all checks pass, the outcome is the same, and
the machine is sound afterwards. Agreement goes on from one computation to the next. The registers
and the accesses to memory agree, and a load whose preview has been answered is not refused
(`Checked.commitLoad_of_previewLoad`).
-/

namespace Processor64

variable {δ α β : Type}

/-! ## Computations that may fail -/

/-- A computation that fails, or ends with a value or a trap. -/
def CheckedExec (δ α : Type) := Session δ → Except Failure (EStateM.Result Trap (Session δ) α)

namespace CheckedExec

instance : Monad (CheckedExec δ) where
  pure a s := .ok (.ok a s)
  bind c f s := do
    match ← c s with
    | .ok a s => f a s
    | .error t s => return .error t s

instance : MonadLift (Except Failure) (CheckedExec δ) where
  monadLift e s := return .ok (← e) s

/-- A computation without checks. -/
def run (x : Exec δ α) : CheckedExec δ α := fun s => .ok (x s)

def raise (t : Trap) : CheckedExec δ α := fun s => .ok (.error t s)

/-- A computation that must not trap. -/
def certain (c : CheckedExec δ α) : CheckedExec δ α := fun s => do
  match ← c s with
  | .ok a s => return .ok a s
  | .error _ _ => .error .reread

end CheckedExec

/-! ## Sound machines -/

/-- The machine has a translation entry, and its memory has countable sizes. -/
structure Machine.Sound (m : Machine δ) : Prop where
  slots : m.tlb.slots ≠ []
  memory : m.memory.Countable

theorem Machine.Sound.of_sameShape {m n : Machine δ} (h : m.Sound) (hs : m.SameShape n) :
    n.Sound where
  slots := by
    have hlength : n.tlb.slots.length = m.tlb.slots.length := hs.capacity
    rw [← List.length_pos_iff, hlength]
    exact List.length_pos_iff.mpr h.slots
  memory := ⟨hs.memory.physical ▸ h.memory.physical, hs.memory.backing ▸ h.memory.backing⟩

namespace CheckedExec

/-- From `s` the checked computation does what the other does, which leaves a sound machine. -/
structure AgreesAt (c : CheckedExec δ α) (x : Exec δ α) (s : Session δ) : Prop where
  eq : c s = .ok (x s)
  sound : (x.after s).machine.Sound

/-- On every sound machine the checked computation does what the other does, which leaves the
machine sound. -/
def Agrees (c : CheckedExec δ α) (x : Exec δ α) : Prop :=
  ∀ s : Session δ, s.machine.Sound → AgreesAt c x s

/-- Checked steps that agree agree one after the other. -/
theorem AgreesAt.bind {c : CheckedExec δ α} {x : Exec δ α} {f : α → CheckedExec δ β}
    {g : α → Exec δ β} {s : Session δ} (h : AgreesAt c x s)
    (hf : ∀ a s', x s = .ok a s' → s'.machine.Sound → AgreesAt (f a) (g a) s') :
    AgreesAt (c >>= f) (x >>= g) s := by
  have hsound := h.sound
  have hc : (c >>= f) s = c s >>= _ := rfl
  rw [h.eq, Checked.ok_bind] at hc
  rcases hx : x s with ⟨a, s'⟩ | ⟨t, s'⟩ <;> rw [hx] at hc <;> rw [Exec.after, hx] at hsound
  · have hrest := hf a s' hx hsound
    refine ⟨?_, ?_⟩
    · rw [hc, Exec.bind_of_eq_ok hx]
      exact hrest.eq
    · rw [Exec.after, Exec.bind_of_eq_ok hx]
      exact hrest.sound
  · have herror : (x >>= g) s = .error t s' := Exec.bind_eq_error.mpr (.inl hx)
    refine ⟨?_, ?_⟩
    · rw [hc, herror]
      rfl
    · rw [Exec.after, herror]
      exact hsound

namespace Agrees

variable {c : CheckedExec δ α} {x : Exec δ α}

theorem pure (a : α) : Agrees (Pure.pure a : CheckedExec δ α) (Pure.pure a) :=
  fun _ hs => ⟨rfl, hs⟩

theorem raise (t : Trap) : Agrees (raise t : CheckedExec δ α) (throw t) := fun _ hs => ⟨rfl, hs⟩

theorem run (h : x.KeepsShape) : Agrees (run x) x := fun s hs => ⟨rfl, hs.of_sameShape (h s)⟩

theorem bind {f : α → CheckedExec δ β} {g : α → Exec δ β} (h : Agrees c x)
    (hf : ∀ a, Agrees (f a) (g a)) : Agrees (c >>= f) (x >>= g) :=
  fun s hs => (h s hs).bind fun a s' _ hs' => hf a s' hs'

/-- What follows need only agree for the sound machines. -/
theorem bind_machine {f : Machine δ → CheckedExec δ α} {g : Machine δ → Exec δ α}
    (h : ∀ m : Machine δ, m.Sound → Agrees (f m) (g m)) :
    Agrees (CheckedExec.run Exec.machine >>= f) (Exec.machine >>= g) :=
  fun s hs => ⟨(h s.machine hs s hs).eq, (h s.machine hs s hs).sound⟩

/-- A check that passes is as good as none. -/
theorem check {e : Except Failure β} {b : β} {f : β → CheckedExec δ α} (he : e = .ok b)
    (h : Agrees (f b) x) : Agrees (liftM e >>= f) x := by
  subst he
  exact h

theorem of_check {e : Except Failure α} {a : α} (he : e = .ok a) :
    Agrees (liftM e) (Pure.pure a : Exec δ α) := by
  subst he
  exact pure a

theorem ite {p q : Prop} [Decidable p] [Decidable q] (hpq : p ↔ q) {d : CheckedExec δ α}
    {y : Exec δ α} (h : q → Agrees c x) (h' : Agrees d y) :
    Agrees (if p then c else d) (if q then x else y) := by
  by_cases hq : q
  · rw [if_pos (hpq.mpr hq), if_pos hq]
    exact h hq
  · rwa [if_neg (fun hp => hq (hpq.mp hp)), if_neg hq]

/-- A computation that ends with a value need not be told that it must. -/
theorem certain {s s' : Session δ} {a : α} (h : AgreesAt c x s) (hx : x s = .ok a s') :
    AgreesAt (certain c) x s where
  eq := by
    show (c s >>= _) = _
    rw [h.eq, hx]
    rfl
  sound := h.sound

end Agrees

end CheckedExec

open CheckedExec

namespace Checked

/-! ## Registers -/

def generalOf (s : Registers) (n : Nat) : Except Failure Word :=
  if n = 0 then .ok 0
  else match s.generals[n]? with
    | some v => .ok v
    | none => .error .register

def withGeneral (s : Registers) (n : Nat) (v : Word) : Except Failure Registers :=
  if h : n < 16 then
    .ok (if n = 0 then s else { s with generals := s.generals.set n v h })
  else .error .register

def controlOf (s : Registers) (c : ControlRegister) : Except Failure Word :=
  match s.controls[c.number.toNat]? with
  | some v => .ok v
  | none => .error .index

def withControl (s : Registers) (c : ControlRegister) (v : Word) : Except Failure Registers :=
  if h : c.number.toNat < 16 then
    .ok { s with controls := s.controls.set c.number.toNat v h }
  else .error .index

theorem generalOf_eq (s : Registers) (r : Register) : generalOf s r.toNat = .ok (s.general r) := by
  have hzero : r.toNat = 0 ↔ r = 0 := by rw [← BitVec.toNat_inj]; rfl
  unfold generalOf Registers.general
  by_cases h : r = 0
  · rw [if_pos (hzero.mpr h), if_pos h]
  · rw [if_neg (fun hr => h (hzero.mp hr)), if_neg h, Vector.getElem?_eq_getElem r.isLt]
    rfl

theorem withGeneral_eq (s : Registers) (r : Register) (v : Word) :
    withGeneral s r.toNat v = .ok (s.setGeneral r v) := by
  have hzero : r.toNat = 0 ↔ r = 0 := by rw [← BitVec.toNat_inj]; rfl
  rw [withGeneral, dif_pos r.isLt, Registers.setGeneral]
  simp only [hzero]

theorem controlOf_eq (s : Registers) (c : ControlRegister) :
    controlOf s c = .ok (s.control c) := by
  rw [controlOf, Vector.getElem?_eq_getElem c.number.isLt]
  rfl

theorem withControl_eq (s : Registers) (c : ControlRegister) (v : Word) :
    withControl s c v = .ok (s.setControl c v) := dif_pos c.number.isLt

def general (n : Nat) : CheckedExec δ Word := do
  generalOf (← run Exec.machine).registers n

def setGeneral (n : Nat) (v : Word) : CheckedExec δ Unit := do
  let s ← withGeneral (← run Exec.machine).registers n v
  run (Exec.mapRegisters fun _ => s)

def control (c : ControlRegister) : CheckedExec δ Word := do
  controlOf (← run Exec.machine).registers c

def setControl (c : ControlRegister) (v : Word) : CheckedExec δ Unit := do
  let s ← withControl (← run Exec.machine).registers c v
  run (Exec.mapRegisters fun _ => s)

theorem general_agrees (r : Register) : Agrees (general r.toNat) (Exec.general r : Exec δ Word) :=
  .bind_machine fun m _ => .of_check (generalOf_eq m.registers r)

theorem setGeneral_agrees (r : Register) (v : Word) :
    Agrees (setGeneral r.toNat v) (Exec.setGeneral r v : Exec δ Unit) := by
  intro s hs
  refine ⟨?_, hs.of_sameShape (Exec.stepwise_keepsShape.setGeneral r v s)⟩
  show (liftM (withGeneral s.machine.registers r.toNat v) >>= fun t =>
    run (Exec.mapRegisters fun _ => t) : CheckedExec δ Unit) s = _
  rw [withGeneral_eq]
  rfl

theorem control_agrees (c : ControlRegister) :
    Agrees (control c) (Exec.control c : Exec δ Word) :=
  .bind_machine fun m _ => .of_check (controlOf_eq m.registers c)

theorem setControl_agrees (c : ControlRegister) (v : Word) :
    Agrees (setControl c v) (Exec.mapRegisters (·.setControl c v) : Exec δ Unit) := by
  intro s hs
  refine ⟨?_, hs.of_sameShape (Exec.stepwise_keepsShape.mapRegisters _ s)⟩
  show (liftM (withControl s.machine.registers c v) >>= fun t =>
    run (Exec.mapRegisters fun _ => t) : CheckedExec δ Unit) s = _
  rw [withControl_eq]
  rfl

theorem status_agrees : Agrees (run Exec.status) (Exec.status : Exec δ StatusWord) :=
  .run Exec.stepwise_keepsShape.status

/-! ## Accesses -/

def accessContext (m : Machine δ) : Except Failure AccessContext := do
  let ids ← [ControlRegister.protectionId0, .protectionId1, .protectionId2, .protectionId3].mapM
    (controlOf m.registers)
  return ⟨m.registers.status, ids.map (·.setWidth 32)⟩

/-- The physical address of an access, with the checks of the buffer. -/
def translate (a : Word) (w : Width) (k : AccessKind) : CheckedExec δ Word := do
  unless ← isAligned w a do raise (.misaligned a w)
  let m ← run Exec.machine
  let (r, tlb) ← Tlb.Checked.translate m.tlb a k (← accessContext m)
  run (Exec.mapMachine fun m => { m with tlb := tlb })
  run (Exec.ofExcept r)

def resolve (a : Word) : CheckedExec δ Word := do
  let m ← run Exec.machine
  let (r, tlb) ← Tlb.Checked.resolve m.tlb a (← accessContext m)
  run (Exec.mapMachine fun m => { m with tlb := tlb })
  run (Exec.ofExcept r)

theorem accessContext_eq (m : Machine δ) : accessContext m = .ok m.accessContext := by
  simp [accessContext, controlOf_eq, Machine.accessContext]

/-- A table with as many slots as that of the machine may take its place. -/
theorem mapTlb_agrees {m : Machine δ} {t : Tlb} (hm : m.Sound)
    (h : t.capacity = m.tlb.capacity) : Agrees (run (Exec.mapMachine fun m => { m with tlb := t }))
      (Exec.mapMachine fun m => { m with tlb := t } : Exec δ Unit) := by
  have hslots : t.slots ≠ [] := by
    rw [← List.length_pos_iff]
    exact Nat.lt_of_lt_of_eq (List.length_pos_iff.mpr hm.slots) h.symm
  exact fun _ hs => ⟨rfl, hslots, hs.memory⟩

theorem ofExcept_agrees (r : Except Trap α) :
    Agrees (run (Exec.ofExcept r)) (Exec.ofExcept r : Exec δ α) :=
  .run (Exec.stepwise_keepsShape.ofExcept r)

theorem count_agrees (f : Counters → Counters) :
    Agrees (run (Exec.count f)) (Exec.count f : Exec δ Unit) :=
  .run (Exec.stepwise_keepsShape.count f)

theorem mapRegisters_agrees (f : Registers → Registers) :
    Agrees (run (Exec.mapRegisters f)) (Exec.mapRegisters f : Exec δ Unit) :=
  .run (Exec.stepwise_keepsShape.mapRegisters f)

/-- A reply of the memory is taken over on the machine that it is the reply to. -/
theorem absorb_agrees {e : Memory δ → Except Failure (Except Trap (Reply (Memory δ) α))}
    {f : Memory δ → Except Trap (Reply (Memory δ) α)}
    (he : ∀ m : Memory δ, m.Countable → e m = .ok (f m))
    (hf : ∀ m r, f m = .ok r → m.SameSize r.after) :
    Agrees (do let r ← e (← run Exec.machine).memory; run (Exec.absorb r))
      (Exec.machine >>= fun m => Exec.absorb (f m.memory) : Exec δ α) := by
  intro s hs
  refine ⟨?_, hs.of_sameShape (Exec.stepwise_keepsShape.absorb f hf s)⟩
  show (liftM (e s.machine.memory) >>= fun r => run (Exec.absorb r) : CheckedExec δ α) s = _
  rw [he _ hs.memory]
  rfl

/-- A checked translation meets no failure and agrees. -/
theorem translate_agrees (a : Word) (w : Width) (k : AccessKind) :
    Agrees (translate a w k) (Exec.translate a w k : Exec δ Word) := by
  have hplace : Agrees (do
      let m ← run Exec.machine
      let (r, tlb) ← Tlb.Checked.translate m.tlb a k (← accessContext m)
      run (Exec.mapMachine fun m => { m with tlb := tlb })
      run (Exec.ofExcept r)) (do
      let m ← Exec.machine
      let (r, tlb) := m.tlb.translate a k m.accessContext
      Exec.mapMachine fun m => { m with tlb := tlb }
      Exec.ofExcept r : Exec δ Word) :=
    .bind_machine fun m hm => .check (accessContext_eq m) <|
      .check (Tlb.Checked.translate_eq k m.accessContext) <|
        .bind (mapTlb_agrees hm (m.tlb.capacity_translate a k _)) fun _ => ofExcept_agrees _
  exact .check (isAligned_eq w a) <|
    .ite Iff.rfl (fun _ => hplace) (.bind (.raise _) fun _ => hplace)

theorem resolve_agrees (a : Word) : Agrees (resolve a) (Exec.resolve a : Exec δ Word) :=
  .bind_machine fun m hm => .check (accessContext_eq m) <|
    .check (Tlb.Checked.resolve_eq m.accessContext) <|
      .bind (mapTlb_agrees hm (m.tlb.capacity_resolve a _)) fun _ => ofExcept_agrees _

variable [Device δ]

def readMemory (p : Word) (w : Width) (signed : Bool) : CheckedExec δ Word := do
  let r ← Memory.Checked.read (← run Exec.machine).memory p w signed
  run (Exec.absorb r)

def previewMemory (p : Word) (w : Width) (signed : Bool) : CheckedExec δ Word := do
  let r ← Memory.Checked.preview (← run Exec.machine).memory p w signed
  run (Exec.absorb r)

def writeMemory (p : Word) (w : Width) (v : Word) : CheckedExec δ Unit := do
  let r ← Memory.Checked.write (← run Exec.machine).memory p w v
  run (Exec.absorb r)

def loadPlaced (a : Word) (w : Width) (signed : Bool) : CheckedExec δ (Word × Word) := do
  let p ← translate a w .read
  let v ← readMemory p w signed
  run (Exec.count fun c => { c with loads := c.loads + 1 })
  return (p, v)

def load (a : Word) (w : Width) (signed : Bool) : CheckedExec δ Word :=
  return (← loadPlaced a w signed).2

def previewLoad (a : Word) (w : Width) (signed : Bool) : CheckedExec δ (Word × Word) := do
  let p ← translate a w .read
  let v ← previewMemory p w signed
  return (p, v)

/-- Performs a load at the physical address of its preview, which must not be refused. -/
def commitLoad (p : Word) (w : Width) : CheckedExec δ Unit := certain do
  discard (readMemory p w false)
  run (Exec.count fun c => { c with loads := c.loads + 1 })

def hostStore (p : Word) (w : Width) (v : Word) : CheckedExec δ Unit := do
  writeMemory p w v
  run (Exec.mapRegisters (·.noteStore p w.bytes))

def storePlaced (p : Word) (w : Width) (v : Word) : CheckedExec δ Unit := do
  hostStore p w v
  run (Exec.count fun c => { c with stores := c.stores + 1 })

def store (a : Word) (w : Width) (v : Word) : CheckedExec δ Unit := do
  let p ← translate a w .write
  storePlaced p w v

def fetch (a : Word) : CheckedExec δ (BitVec 32) := do
  let p ← translate a .word .execute
  let v ← readMemory p .word false
  return v.extractLsb' 0 32

section

variable (p a : Word) (w : Width) (signed : Bool) (v : Word)

theorem readMemory_agrees :
    Agrees (readMemory p w signed) (Exec.readMemory p w signed : Exec δ _) :=
  absorb_agrees (fun _ h => Memory.Checked.read_eq p w h signed) fun _ _ => .of_read

theorem previewMemory_agrees :
    Agrees (previewMemory p w signed) (Exec.previewMemory p w signed : Exec δ _) :=
  absorb_agrees (fun _ h => Memory.Checked.preview_eq p w h signed) fun _ _ => .of_preview

theorem writeMemory_agrees : Agrees (writeMemory p w v) (Exec.writeMemory p w v : Exec δ _) :=
  absorb_agrees (fun _ h => Memory.Checked.write_eq p w h v) fun _ _ => .of_write

theorem loadPlaced_agrees :
    Agrees (loadPlaced a w signed) (Exec.loadPlaced a w signed : Exec δ _) :=
  .bind (translate_agrees a w .read) fun p => .bind (readMemory_agrees p w signed) fun _ =>
    .bind (count_agrees _) fun _ => .pure _

theorem load_agrees : Agrees (load a w signed) (Exec.load a w signed : Exec δ _) :=
  .bind (loadPlaced_agrees a w signed) fun _ => .pure _

theorem previewLoad_agrees :
    Agrees (previewLoad a w signed) (Exec.previewLoad a w signed : Exec δ _) :=
  .bind (translate_agrees a w .read) fun p => .bind (previewMemory_agrees p w signed) fun _ =>
    .pure _

theorem hostStore_agrees : Agrees (hostStore p w v) (Exec.hostStore p w v : Exec δ _) :=
  .bind (writeMemory_agrees p w v) fun _ => mapRegisters_agrees _

theorem storePlaced_agrees : Agrees (storePlaced p w v) (Exec.storePlaced p w v : Exec δ _) :=
  .bind (hostStore_agrees p w v) fun _ => count_agrees _

theorem store_agrees : Agrees (store a w v) (Exec.store a w v : Exec δ _) :=
  .bind (translate_agrees a w .write) fun p => storePlaced_agrees p w v

theorem fetch_agrees : Agrees (fetch a) (Exec.fetch a : Exec δ _) :=
  .bind (translate_agrees a .word .execute) fun p => .bind (readMemory_agrees p .word false)
    fun _ => .pure _

end

/-- Once a preview has been answered, the load is not refused. -/
theorem commitLoad_of_previewLoad {s s' : Session δ} {a p v : Word} {w : Width} {signed : Bool}
    (h : Exec.previewLoad a w signed s = .ok (p, v) s') (hs : s'.machine.Sound) :
    AgreesAt (commitLoad p w) (Exec.commitLoad p w) s' := by
  obtain ⟨_, hc⟩ := Exec.commitLoad_of_previewLoad_ok h
  exact Agrees.certain ((Agrees.bind (Agrees.bind (readMemory_agrees p w false) fun _ => .pure ())
    fun _ => count_agrees _) s' hs) hc

end Checked

end Processor64
