import Processor64.Proofs.Ending

/-!
# What goes on from step to step

Every computation of a machine is made of a few kinds of steps: it looks at the machine, changes
registers or counts, reports, asks the translation buffer, takes over the reply of the memory, or
traps. A property of computations that goes on from one to the next and holds of these steps
(`Exec.Stepwise`) holds of every access, of every instruction and of the fetch before it
(`Exec.Stepwise.instructionAt`).
-/

namespace Processor64

variable {δ α β : Type}

/-! ## Sizes -/

namespace Tlb

variable (t : Tlb) (a : Word)

@[simp]
theorem capacity_lookup : (t.lookup a).2.capacity = t.capacity := by
  unfold lookup capacity
  rcases t.find? a.page with _ | i <;> simp

@[simp]
theorem capacity_translate (k : AccessKind) (c : AccessContext) :
    (t.translate a k c).2.capacity = t.capacity := by
  have h := t.capacity_lookup a
  unfold translate
  split
  · rfl
  · rcases hl : t.lookup a with ⟨_ | m, u⟩ <;> rw [hl] at h <;> exact h

@[simp]
theorem capacity_resolve (c : AccessContext) : (t.resolve a c).2.capacity = t.capacity := by
  have h := t.capacity_lookup a
  unfold resolve
  split
  · rfl
  · rcases hl : t.lookup a with ⟨_ | m, u⟩ <;> rw [hl] at h <;> exact h

@[simp]
theorem capacity_insert (m : Mapping) : (t.insert m).2.capacity = t.capacity := by
  simp [insert, capacity]

@[simp]
theorem capacity_purge : (t.purge a).2.capacity = t.capacity := by
  unfold purge capacity
  rcases t.find? a.page with _ | i <;> simp

@[simp]
theorem capacity_reset : t.reset.capacity = t.capacity := by simp [reset, capacity]

end Tlb

namespace Memory

/-- The memories have as many bytes in physical memory and in the store of the window. -/
structure SameSize (m n : Memory δ) : Prop where
  physical : n.physical.size = m.physical.size
  backing : n.io.backing.size = m.io.backing.size

namespace SameSize

variable {m n o : Memory δ} {p v : Word} {w : Width} {signed : Bool}

theorem refl (m : Memory δ) : m.SameSize m := ⟨rfl, rfl⟩

theorem trans (h : m.SameSize n) (h' : n.SameSize o) : m.SameSize o :=
  ⟨h'.physical.trans h.physical, h'.backing.trans h.backing⟩

theorem of_readPhysical {r : Reply (Memory δ) Word} (h : m.readPhysical p w signed = .ok r) :
    m.SameSize r.after := by
  obtain ⟨_, -, rfl⟩ := exceptMap_eq_ok.mp h
  exact refl m

theorem of_writePhysical {r : Reply (Memory δ) Unit} (h : m.writePhysical p w v = .ok r) :
    m.SameSize r.after := by
  obtain ⟨s, hs, rfl⟩ := exceptMap_eq_ok.mp h
  obtain ⟨-, rfl⟩ := ByteStore.write_eq_ok hs
  exact ⟨ByteStore.size_setBytes _ _ _, rfl⟩

theorem of_load {image : List UInt8} (h : m.load p image = .ok n) : m.SameSize n := by
  obtain ⟨s, hs, rfl⟩ := exceptMap_eq_ok.mp h
  unfold ByteStore.load at hs
  split at hs
  · obtain rfl := Except.ok.inj hs
    exact ⟨ByteStore.size_setBytes _ _ _, rfl⟩
  · cases hs

variable [Device δ]

theorem of_readIo {r : Reply (Memory δ) Word} (h : m.readIo p w signed = .ok r) :
    m.SameSize r.after := by
  obtain ⟨q, hq, rfl⟩ := exceptMap_eq_ok.mp h
  rcases IoWindow.read_cases hq with ⟨_, _, -, -, rfl⟩ | ⟨_, -, rfl⟩ <;> exact ⟨rfl, rfl⟩

theorem of_writeIo {r : Reply (Memory δ) Unit} (h : m.writeIo p w v = .ok r) :
    m.SameSize r.after := by
  obtain ⟨q, hq, rfl⟩ := exceptMap_eq_ok.mp h
  rcases IoWindow.write_cases hq with ⟨_, _, -, -, hafter⟩ | ⟨_, -, hafter⟩ <;>
    refine ⟨rfl, ?_⟩ <;> simp only [Reply.within, hafter]
  exact ByteStore.size_setBytes _ _ _

theorem of_read {r : Reply (Memory δ) Word} (h : m.read p w signed = .ok r) :
    m.SameSize r.after := by
  unfold read at h
  split at h
  · exact of_readIo h
  · exact of_readPhysical h

theorem of_preview {r : Reply (Memory δ) Word} (h : m.preview p w signed = .ok r) :
    m.SameSize r.after := by
  rw [Memory.after_preview h]
  exact refl m

theorem of_write {r : Reply (Memory δ) Unit} (h : m.write p w v = .ok r) :
    m.SameSize r.after := by
  unfold write at h
  split at h
  · exact of_writeIo h
  · exact of_writePhysical h

end SameSize

end Memory

namespace Exec

/-- Asks the translation buffer, and leaves the table that has answered. -/
def askTlb (f : Machine δ → α × Tlb) : Exec δ α := do
  let m ← machine
  mapMachine fun n => { n with tlb := (f m).2 }
  return (f m).1

/-- The property goes on from one computation to the next, and holds of each kind of step. The
translation buffer and the memory keep their sizes. -/
structure Stepwise (P : ∀ {α : Type}, Exec δ α → Prop) : Prop where
  pure : ∀ {α : Type} (a : α), P (pure a)
  bind : ∀ {α β : Type} {x : Exec δ α} {f : α → Exec δ β}, P x → (∀ a, P (f a)) → P (x >>= f)
  throw : ∀ {α : Type} (t : Trap), P (throw t : Exec δ α)
  machine : P machine
  mapRegisters : ∀ f, P (mapRegisters f)
  count : ∀ f, P (count f)
  emit : ∀ es, P (emit es)
  askTlb : ∀ {α : Type} (f : Machine δ → α × Tlb),
    (∀ m, (f m).2.capacity = m.tlb.capacity) → P (askTlb f)
  absorb : ∀ {α : Type} (f : Memory δ → Except Trap (Reply (Memory δ) α)),
    (∀ m r, f m = .ok r → m.SameSize r.after) → P (Exec.machine >>= fun m => absorb (f m.memory))

namespace Stepwise

variable {P : ∀ {α : Type}, Exec δ α → Prop} (h : Stepwise P)

theorem ite {c : Prop} [Decidable c] {x y : Exec δ α} (hx : P x) (hy : P y) :
    P (if c then x else y) := by
  split <;> assumption

include h

theorem registers : P (registers : Exec δ Registers) := h.bind h.machine fun _ => h.pure _

theorem general (r : Register) : P (general r : Exec δ Word) :=
  h.bind h.registers fun _ => h.pure _

theorem control (c : ControlRegister) : P (control c : Exec δ Word) :=
  h.bind h.registers fun _ => h.pure _

theorem status : P (status : Exec δ StatusWord) := h.bind h.registers fun _ => h.pure _

theorem shiftAmount : P (shiftAmount : Exec δ Nat) :=
  h.bind (h.control .shiftAmount) fun _ => h.pure _

theorem operand (x : Operand) : P (operand x : Exec δ Word) := by
  cases x
  · exact h.general _
  · exact h.pure _

theorem operandAddress (x : MemoryOperand) : P (operandAddress x : Exec δ Word) := by
  cases x
  · exact h.bind (h.general _) fun _ => h.bind (h.general _) fun _ => h.pure _
  · exact h.bind (h.general _) fun _ => h.pure _

theorem setGeneral (r : Register) (v : Word) : P (setGeneral r v : Exec δ Unit) :=
  h.mapRegisters _

theorem result (r : Register) (v : Word) : P (result r v : Exec δ Flow) :=
  h.bind (h.setGeneral r v) fun _ => h.pure _

theorem checkedResult (word : InstructionWord) (r : Register) (v : Option Word) :
    P (checkedResult word r v : Exec δ Flow) := by
  cases v
  · exact h.throw _
  · exact h.result r _

theorem branchTo (t : Word) : P (branchTo t : Exec δ Flow) := by
  unfold Exec.branchTo
  exact ite (h.pure _) (h.throw _)

theorem branchLinked (ia : BitVec 52) (r : Register) (t : Word) :
    P (branchLinked ia r t : Exec δ Flow) :=
  h.bind (h.branchTo t) fun _ => h.bind (h.setGeneral r _) fun _ => h.pure _

theorem ofExcept (r : Except Trap α) : P (ofExcept r : Exec δ α) := by
  cases r
  · exact h.throw _
  · exact h.pure _

/-! ## Accesses -/

/-- A translation asks the buffer once, which keeps its places. -/
theorem translate (a : Word) (w : Width) (k : AccessKind) : P (translate a w k : Exec δ Word) := by
  have hask := h.askTlb (fun m => m.tlb.translate a k m.accessContext)
    fun m => m.tlb.capacity_translate a k m.accessContext
  have hplace : P (Exec.askTlb (fun m => m.tlb.translate a k m.accessContext) >>=
      Exec.ofExcept) := h.bind hask fun _ => h.ofExcept _
  unfold Exec.translate
  exact ite hplace (h.bind (h.throw _) fun _ => hplace)

theorem resolve (a : Word) : P (resolve a : Exec δ Word) := by
  have hask := h.askTlb (fun m => m.tlb.resolve a m.accessContext)
    fun m => m.tlb.capacity_resolve a m.accessContext
  exact (h.bind hask fun _ => h.ofExcept _ : P (Exec.askTlb _ >>= Exec.ofExcept))

section Access

variable [Device δ] (a p v : Word) (w : Width) (signed : Bool)

theorem readMemory : P (readMemory p w signed : Exec δ Word) :=
  h.absorb (·.read p w signed) fun _ _ => .of_read

theorem previewMemory : P (previewMemory p w signed : Exec δ Word) :=
  h.absorb (·.preview p w signed) fun _ _ => .of_preview

theorem writeMemory : P (writeMemory p w v : Exec δ Unit) :=
  h.absorb (·.write p w v) fun _ _ => .of_write

theorem loadPlaced : P (loadPlaced a w signed : Exec δ (Word × Word)) :=
  h.bind (h.translate a w .read) fun p => h.bind (h.readMemory p w signed) fun _ =>
    h.bind (h.count _) fun _ => h.pure _

theorem load : P (load a w signed : Exec δ Word) :=
  h.bind (h.loadPlaced a w signed) fun _ => h.pure _

theorem previewLoad : P (previewLoad a w signed : Exec δ (Word × Word)) :=
  h.bind (h.translate a w .read) fun p => h.bind (h.previewMemory p w signed) fun _ => h.pure _

theorem commitLoad : P (commitLoad p w : Exec δ Unit) :=
  h.bind (h.bind (h.readMemory p w false) fun _ => h.pure _) fun _ => h.count _

theorem hostStore : P (hostStore p w v : Exec δ Unit) :=
  h.bind (h.writeMemory p v w) fun _ => h.mapRegisters _

theorem storePlaced : P (storePlaced p w v : Exec δ Unit) :=
  h.bind (h.hostStore p v w) fun _ => h.count _

theorem store : P (store a w v : Exec δ Unit) :=
  h.bind (h.translate a w .write) fun p => h.storePlaced p v w

theorem fetch : P (fetch a : Exec δ (BitVec 32)) :=
  h.bind (h.translate a .word .execute) fun p => h.bind (h.readMemory p .word false) fun _ =>
    h.pure _

end Access

/-! ## Instructions -/

theorem tlbInsert (r b a : Register) : P (tlbInsert r b a : Exec δ Flow) := by
  refine h.bind (h.general r) fun v => h.bind (h.general b) fun x => h.bind (h.general a)
    fun y => ?_
  have hask := h.askTlb (fun m => m.tlb.insert ⟨x.page, y.page, v.extractLsb' 32 8,
    v.extractLsb' 0 32⟩) fun m => m.tlb.capacity_insert _
  have hinsert := h.bind hask fun slot => h.bind
    (h.emit [.tlbInserted slot x y (v.extractLsb' 32 8) (v.extractLsb' 0 32)]) fun _ =>
      h.pure Flow.next
  exact hinsert

theorem tlbPurge (b : Register) : P (tlbPurge b : Exec δ Flow) := by
  refine h.bind (h.general b) fun a => ?_
  have hask := h.askTlb (fun m => m.tlb.purge a) fun m => m.tlb.capacity_purge a
  have hpurge := h.bind hask fun found => ite (c := found = true) (h.pure Flow.next)
    (h.bind (h.emit [.tlbPurgeMissed a]) fun _ => h.pure Flow.next)
  exact hpurge

theorem tlbReset : P (Exec.mapMachine fun m : Machine δ => { m with tlb := m.tlb.reset }) :=
  h.askTlb (fun m => ((), m.tlb.reset)) fun m => m.tlb.capacity_reset

variable [Device δ]

/-- An operation with memory is a sequence of steps that are kept. -/
theorem combine (word : InstructionWord) (o : Combination) :
    P (combine word o : Exec δ Flow) := by
  refine h.bind (h.operandAddress o.operand) fun a => h.bind (h.general o.register) fun old =>
    h.bind (h.previewLoad a o.width true) fun ⟨p, v⟩ => h.bind h.status fun status => ?_
  rcases o.result? status.checksOverflow old v with _ | v'
  · exact h.throw _
  · exact h.bind (h.commitLoad p o.width) fun _ => h.result o.register v'

/-- What every step keeps, every instruction keeps. -/
theorem perform (word : InstructionWord) (ia : BitVec 52) (i : Instruction) :
    P (perform word ia i : Exec δ Flow) := by
  cases i
  case nop | cacheFlush | cachePurge | diagnose | halt => exact h.pure _
  case binary op r b x m =>
    exact h.bind (h.general b) fun _ => h.bind (h.operand x) fun _ => h.bind h.status fun _ =>
      h.checkedResult word r _
  case compare c r b x =>
    exact h.bind (h.general b) fun _ => h.bind (h.operand x) fun _ => h.result r _
  case bitField op r b position last =>
    refine h.bind (h.general b) fun v => ?_
    cases op
    case deposit => exact h.bind (h.general r) fun _ => h.result r _
    all_goals exact h.result r _
  case doubleShift r b a =>
    exact h.bind (h.general b) fun _ => h.bind (h.general a) fun _ => h.bind h.shiftAmount
      fun _ => h.result r _
  case shiftAdd left distance r b a =>
    exact h.bind (h.general b) fun _ => h.bind (h.general a) fun _ => h.bind h.status fun _ =>
      h.checkedResult word r _
  case loadImmediate part r v => exact h.bind (h.general r) fun _ => h.result r _
  case loadOffset r b v => exact h.bind (h.general b) fun _ => h.result r _
  case memoryBinary op w r x m =>
    rw [perform_combination (i := .memoryBinary op w r x m) rfl]
    exact h.combine word _
  case memoryCompare c w r x =>
    rw [perform_combination (i := .memoryCompare c w r x) rfl]
    exact h.combine word _
  case load signed w r x =>
    exact h.bind (h.operandAddress x) fun a => h.bind (h.load a w signed) fun v => h.result r v
  case store w r x =>
    exact h.bind (h.operandAddress x) fun a => h.bind (h.general r) fun v =>
      h.bind (h.store a v w) fun _ => h.pure _
  case loadReserve w r x =>
    exact h.bind (h.operandAddress x) fun a => h.bind (h.loadPlaced a w false) fun ⟨_, v⟩ =>
      h.bind (h.mapRegisters _) fun _ => h.result r v
  case storeConditional w r x =>
    exact h.bind (h.operandAddress x) fun a => h.bind (h.general r) fun v =>
      h.bind (h.translate a w .write) fun p => h.bind h.registers fun _ =>
        h.bind (h.mapRegisters _) fun _ =>
          ite (h.bind (h.storePlaced p v w) fun _ => h.result r 1)
            (h.bind (h.count _) fun _ => h.result r 0)
  case branch r d => exact h.branchLinked ia r _
  case branchRegister r b => exact h.bind (h.general b) fun t => h.branchLinked ia r t
  case branchIndexed r b a =>
    exact h.bind (h.general b) fun _ => h.bind (h.general a) fun _ => h.branchLinked ia r _
  case branchBit sense r bit d =>
    cases bit
    case fixed p =>
      exact h.bind (h.pure p.toNat) fun _ => h.bind (h.general r) fun _ =>
        ite (h.branchTo _) (h.pure _)
    case shiftAmount =>
      exact h.bind h.shiftAmount fun _ => h.bind (h.general r) fun _ =>
        ite (h.branchTo _) (h.pure _)
  case branchCompare c r b d =>
    exact h.bind (h.general r) fun _ => h.bind (h.general b) fun _ =>
      ite (h.branchTo _) (h.pure _)
  case branchTable b limit => exact h.bind (h.general b) fun _ => h.branchTo _
  case moveFromControl r c => exact h.bind h.registers fun _ => h.result r _
  case moveToControl r c =>
    exact h.bind (h.general r) fun _ => h.bind (h.mapRegisters _) fun _ => h.pure _
  case physicalAddress r b =>
    exact h.bind (h.general b) fun a => h.bind (h.resolve a) fun p => h.result r p
  case probe kind r b =>
    rcases kind with _ | k
    · exact h.throw _
    · exact h.bind h.machine fun _ => h.bind (h.general b) fun _ => h.result r _
  case tlbInsert r b a => exact h.tlbInsert r b a
  case tlbPurge b => exact h.tlbPurge b
  case tlbReset => exact h.bind h.tlbReset fun _ => h.pure _
  case modifyStatus on r modes =>
    exact h.bind h.status fun _ => h.bind (h.setGeneral r _) fun _ =>
      h.bind (h.mapRegisters _) fun _ => h.pure _
  case returnFromTrap => exact h.bind (h.control .trapStatus) fun _ => h.pure _
  case trap r n => exact h.bind (h.general r) fun _ => h.throw _

/-- What every step keeps is kept by the judgement of a word and by its instruction. -/
theorem execute (word : InstructionWord) (ia : BitVec 52) :
    P (execute word ia : Exec δ Flow) := by
  refine h.bind h.status fun _ => ite (h.bind (h.throw _) fun _ => ?_) ?_
  all_goals
    rcases Instruction.ofWord? word with _ | i
    · exact h.throw _
    · exact ite (h.perform word ia i) (h.throw _)

/-- What every step keeps, a whole cycle keeps up to its end. -/
theorem instructionAt (ia : BitVec 52) : P (instructionAt ia : Exec δ Flow) :=
  h.bind (h.fetch _) fun word => h.bind (h.mapRegisters _) fun _ =>
    h.bind (h.execute word ia) fun flow => h.bind (h.count _) fun _ => h.pure flow

end Stepwise

end Exec

end Processor64
