import Processor64.Proofs.Bytes
import Processor64.Proofs.Calculation
import Processor64.Proofs.Recency

/-!
# What instructions that reach memory do

Each of them finds the place of its operand and then makes one access there. A completed read
sets its register and leaves what the memory replies (`perform_read`), and a read whose value is
combined with a register was previewed before (`combine_read`). A store leaves what the memory
replies and drops the reservation that it meets (`perform_store`); a load with reserve leaves its
reservation (`perform_loadReserve`), and a conditional store uses up whatever reservation there was
and stores only if that was at its own place (`perform_storeConditional_ok`). An unprivileged
instruction leaves controls, status bits and the contents of the translation buffer alone
(`perform_unprivileged`).

An instruction that traps has done nothing (`touched_of_perform_error`), as far as a trap is
answerable for: recency, the instruction register, the reservation and the log may differ.
-/

namespace Processor64

variable {δ α β : Type}

@[simp]
theorem Machine.contents_place (m : Machine δ) (a : Word) (w : Width) (k : AccessKind) :
    (m.place a w k).2.contents = m.tlb.contents := by
  unfold place
  split
  · exact Tlb.contents_translate _ _ _ _
  · rfl

/-- Settings, controls, physical memory, counts and the state of the run are the same. -/
structure Machine.Keeps (m n : Machine δ) : Prop where
  settings : n.settings = m.settings
  controls : n.registers.controls = m.registers.controls
  physical : n.memory.physical = m.memory.physical
  counters : n.counters = m.counters
  state : n.state = m.state

/-- Settings, controls, status, contents of the translation buffer and the state of the run are
kept, and physical memory is kept or written at a place found for a write. -/
structure Machine.Confines [Device δ] (m n : Machine δ) : Prop where
  settings : n.settings = m.settings
  controls : n.registers.controls = m.registers.controls
  status : n.registers.status = m.registers.status
  contents : n.tlb.contents = m.tlb.contents
  retired : n.counters.retired = m.counters.retired
  state : n.state = m.state
  physical : n.memory.physical = m.memory.physical ∨
    ∃ a w p v reply, (m.place a w .write).1 = .ok p ∧ m.memory.write p w v = .ok reply ∧
      n.memory.physical = reply.after.physical

theorem Machine.Confines.of_place [Device δ] {m : Machine δ} {a : Word} {w : Width}
    {k : AccessKind} {r : Registers} {io : Memory δ} {c : Counters}
    (hc : r.controls = m.registers.controls) (hs : r.status = m.registers.status)
    (hr : c.retired = m.counters.retired)
    (hp : io.physical = m.memory.physical ∨
      ∃ a w p v reply, (m.place a w .write).1 = .ok p ∧ m.memory.write p w v = .ok reply ∧
        io.physical = reply.after.physical) :
    m.Confines
      { m with tlb := (m.place a w k).2, memory := io, registers := r, counters := c } where
  settings := rfl
  controls := hc
  status := hs
  contents := Machine.contents_place _ _ _ _
  retired := hr
  state := rfl
  physical := hp

/-- The width, the register and the operand of an instruction that reads memory into a
register. -/
def Instruction.read? : Instruction → Option (Width × Register × MemoryOperand)
  | memoryBinary _ w r x _ | memoryCompare _ w r x | load _ w r x => some (w, r, x)
  | _ => none

/-- A register that is combined with an operand in memory, unless the result does not stand. -/
structure Combination where
  width : Width
  register : Register
  operand : MemoryOperand
  /-- Of whether overflow is checked, the register and the operand. -/
  result? : Bool → Word → Word → Option Word

def Instruction.combination? : Instruction → Option Combination
  | memoryBinary op w r x m => some ⟨w, r, x, fun checked old v => op.apply old v m checked⟩
  | memoryCompare c w r x => some ⟨w, r, x, fun _ old v => some (Exec.flag (c.holds old v))⟩
  | _ => none

/-- The sessions differ at most in recency, instruction register, reservation and log. -/
def Session.Touched (s s' : Session δ) : Prop :=
  ∃ tlb word reservation log, tlb.contents = s.machine.tlb.contents ∧
    s' = ⟨{ s.machine with
      tlb := tlb
      registers := { s.machine.registers with
        instruction := word
        reservation := reservation } }, log⟩

namespace Session.Touched

variable {s s₁ s₂ : Session δ}

theorem refl (s : Session δ) : s.Touched s := ⟨_, _, _, _, rfl, rfl⟩

theorem trans (h : s.Touched s₁) (h' : s₁.Touched s₂) : s.Touched s₂ := by
  obtain ⟨_, _, _, _, ht, rfl⟩ := h
  obtain ⟨_, _, _, _, ht', rfl⟩ := h'
  exact ⟨_, _, _, _, ht'.trans ht, rfl⟩

theorem keeps (h : s.Touched s₁) : s.machine.Keeps s₁.machine := by
  obtain ⟨_, _, _, _, -, rfl⟩ := h
  exact ⟨rfl, rfl, rfl, rfl, rfl⟩

theorem withTlb {t : Tlb} (h : t.contents = s.machine.tlb.contents) : s.Touched (s.withTlb t) :=
  ⟨_, _, _, _, h, rfl⟩

theorem withRegisters (s : Session δ) (word : BitVec 32) (r : Option Reservation) :
    s.Touched (s.withRegisters
      { s.machine.registers with instruction := word, reservation := r }) :=
  ⟨_, _, _, _, rfl, rfl⟩

theorem afterReply {r : Reply (Memory δ) α} (h : r.after = s.machine.memory) :
    s.Touched (s.afterReply r) := by
  refine ⟨s.machine.tlb, s.machine.registers.instruction, s.machine.registers.reservation,
    s.log ++ r.events, rfl, ?_⟩
  show (⟨{ s.machine with memory := r.after }, s.log ++ r.events⟩ : Session δ) = _
  rw [h]

end Session.Touched

namespace Exec

variable {word : InstructionWord} {ia : BitVec 52} {r : Register} {w : Width} {k : AccessKind}
  {x : MemoryOperand} {o : Combination} {s s' : Session δ} {flow : Flow} {t : Trap} {a p v : Word}
  {signed : Bool}

theorem touched_of_translate (h : translate a w k s = .ok p s') : s.Touched s' := by
  obtain ⟨-, rfl⟩ := translate_eq_ok.mp h
  exact .withTlb (Machine.contents_place _ _ _ _)

theorem touched_of_translate_error (h : translate a w k s = .error t s') : s.Touched s' := by
  obtain ⟨-, rfl⟩ := translate_eq_error.mp h
  exact .withTlb (Machine.contents_place _ _ _ _)

variable [Device δ]

/-! ## Completed accesses -/

theorem loadPlaced_ok (h : loadPlaced a w signed s = .ok (p, v) s') :
    ∃ reply, (s.machine.place a w .read).1 = .ok p ∧
      s.machine.memory.read p w signed = .ok reply ∧ reply.value = v ∧
      s'.machine = { s.machine with
        tlb := (s.machine.place a w .read).2
        memory := reply.after
        counters := { s.machine.counters with loads := s.machine.counters.loads + 1 } } := by
  simp only [loadPlaced, bind_eq_ok, translate_eq_ok, readMemory_apply, absorb_eq_ok, count_apply,
    pure_apply, EStateM.Result.ok.injEq, Prod.mk.injEq] at h
  obtain ⟨_, _, ⟨hp, rfl⟩, _, _, ⟨reply, hr, rfl, rfl⟩, _, _, ⟨-, rfl⟩, ⟨rfl, rfl⟩, rfl⟩ := h
  exact ⟨reply, hp, hr, rfl, rfl⟩

theorem previewLoad_ok (h : previewLoad a w signed s = .ok (p, v) s') :
    ∃ reply, (s.machine.place a w .read).1 = .ok p ∧
      s.machine.memory.preview p w signed = .ok reply ∧ reply.value = v ∧
      s'.machine = { s.machine with tlb := (s.machine.place a w .read).2 } := by
  simp only [previewLoad, bind_eq_ok, translate_eq_ok, previewMemory_apply, absorb_eq_ok,
    pure_apply, EStateM.Result.ok.injEq, Prod.mk.injEq] at h
  obtain ⟨_, _, ⟨hp, rfl⟩, _, _, ⟨reply, hr, rfl, rfl⟩, ⟨rfl, rfl⟩, rfl⟩ := h
  refine ⟨reply, hp, hr, rfl, ?_⟩
  rw [Session.machine_afterReply, Memory.after_preview hr]
  rfl

theorem commitLoad_ok {u : Unit} (h : commitLoad p w s = .ok u s') :
    ∃ reply, s.machine.memory.read p w false = .ok reply ∧
      s'.machine = { s.machine with
        memory := reply.after
        counters := { s.machine.counters with loads := s.machine.counters.loads + 1 } } := by
  simp only [commitLoad, bind_eq_ok, discard_eq_ok, readMemory_apply, absorb_eq_ok, count_apply,
    EStateM.Result.ok.injEq] at h
  obtain ⟨_, _, ⟨_, reply, hr, -, rfl⟩, -, rfl⟩ := h
  exact ⟨reply, hr, rfl⟩

theorem hostStore_ok {u : Unit} (h : hostStore p w v s = .ok u s') :
    ∃ reply, s.machine.memory.write p w v = .ok reply ∧
      s'.machine = { s.machine with
        memory := reply.after
        registers := s.machine.registers.noteStore p w.bytes } := by
  simp only [hostStore, bind_eq_ok, writeMemory_apply, absorb_eq_ok, mapRegisters_apply,
    EStateM.Result.ok.injEq] at h
  obtain ⟨_, _, ⟨reply, hr, -, rfl⟩, -, rfl⟩ := h
  exact ⟨reply, hr, rfl⟩

theorem hostStore_error (h : hostStore p w v s = .error t s') : s' = s := by
  simp only [hostStore, bind_eq_error, writeMemory_apply, absorb_eq_error, mapRegisters_apply,
    reduceCtorEq, and_false, exists_false, or_false] at h
  exact h.2.symm

theorem storePlaced_ok {u : Unit} (h : storePlaced p w v s = .ok u s') :
    ∃ reply, s.machine.memory.write p w v = .ok reply ∧
      s'.machine = { s.machine with
        memory := reply.after
        registers := s.machine.registers.noteStore p w.bytes
        counters := { s.machine.counters with stores := s.machine.counters.stores + 1 } } := by
  simp only [storePlaced, bind_eq_ok, count_apply, EStateM.Result.ok.injEq] at h
  obtain ⟨_, s₁, hs, -, rfl⟩ := h
  obtain ⟨reply, hr, hs₁⟩ := hostStore_ok hs
  exact ⟨reply, hr, by rw [Session.machine_count, hs₁]⟩

/-- What all instructions with a combination do, each with its own. -/
def combine (word : InstructionWord) (o : Combination) : Exec δ Flow := do
  let a ← operandAddress o.operand
  let old ← general o.register
  let (p, v) ← previewLoad a o.width true
  match o.result? (← status).checksOverflow old v with
  | none => throw (word.trap .overflow)
  | some v =>
    commitLoad p o.width
    result o.register v

theorem perform_combination {i : Instruction} (hi : i.combination? = some o)
    (word : InstructionWord) (ia : BitVec 52) :
    (perform word ia i : Exec δ Flow) = combine word o := by
  cases i <;> cases hi <;> rfl

/-- A combination that completes has previewed its operand and then read it. -/
theorem combine_ok (h : combine word o s = .ok flow s') :
    ∃ p u v s₁ s₂,
      previewLoad (o.operand.address s.machine.registers) o.width true s = .ok (p, u) s₁ ∧
      o.result? s.machine.registers.status.checksOverflow
        (s.machine.registers.general o.register) u = some v ∧
      commitLoad p o.width s₁ = .ok () s₂ ∧ flow = .next ∧
      s' = s₂.withRegisters (s₂.machine.registers.setGeneral o.register v) := by
  simp only [combine, bind_eq_ok, operandAddress_apply, general_apply, status_apply,
    EStateM.Result.ok.injEq] at h
  obtain ⟨_, _, ⟨rfl, rfl⟩, _, _, ⟨rfl, rfl⟩, ⟨p, u⟩, s₁, hp, _, _, ⟨rfl, rfl⟩, h⟩ := h
  obtain ⟨-, -, -, -, hs₁⟩ := previewLoad_ok hp
  rw [hs₁] at h
  rcases hv : o.result? s.machine.registers.status.checksOverflow
    (s.machine.registers.general o.register) u with _ | v <;> simp only [hv] at h
  · cases h
  · simp only [bind_eq_ok, result_apply, EStateM.Result.ok.injEq] at h
    obtain ⟨_, s₂, hc, rfl, rfl⟩ := h
    exact ⟨p, u, v, s₁, s₂, hp, hv, hc, rfl, rfl⟩

/-- An operation with memory reads the place it previewed, and writes one register. -/
theorem combine_read (h : combine word o s = .ok flow s') :
    ∃ p seen reply v,
      (s.machine.place (o.operand.address s.machine.registers) o.width .read).1 = .ok p ∧
      s.machine.memory.preview p o.width true = .ok seen ∧
      o.result? s.machine.registers.status.checksOverflow
        (s.machine.registers.general o.register) seen.value = some v ∧
      s.machine.memory.read p o.width false = .ok reply ∧ flow = .next ∧
      s'.machine = { s.machine with
        tlb := (s.machine.place (o.operand.address s.machine.registers) o.width .read).2
        memory := reply.after
        registers := s.machine.registers.setGeneral o.register v
        counters := { s.machine.counters with loads := s.machine.counters.loads + 1 } } := by
  obtain ⟨p, u, v, s₁, s₂, hp, hv, hc, rfl, rfl⟩ := combine_ok h
  obtain ⟨seen, hplace, hseen, rfl, hs₁⟩ := previewLoad_ok hp
  obtain ⟨reply, hr, hs₂⟩ := commitLoad_ok hc
  rw [hs₁] at hr hs₂
  exact ⟨p, seen, reply, v, hplace, hseen, hv, hr, rfl,
    by rw [Session.machine_withRegisters, hs₂]⟩

/-- A completed read has set its register and left what the memory replied. -/
theorem perform_read {i : Instruction} (hi : i.read? = some (w, r, x))
    (h : perform word ia i s = .ok flow s') :
    ∃ p signed reply v,
      (s.machine.place (x.address s.machine.registers) w .read).1 = .ok p ∧
      s.machine.memory.read p w signed = .ok reply ∧ flow = .next ∧
      s'.machine = { s.machine with
        tlb := (s.machine.place (x.address s.machine.registers) w .read).2
        memory := reply.after
        registers := s.machine.registers.setGeneral r v
        counters := { s.machine.counters with loads := s.machine.counters.loads + 1 } } := by
  cases i <;>
    simp only [Instruction.read?, reduceCtorEq, Option.some.injEq, Prod.mk.injEq] at hi <;>
    obtain ⟨rfl, rfl, rfl⟩ := hi
  case memoryBinary op w r x m =>
    rw [perform_combination (i := .memoryBinary op w r x m) rfl] at h
    obtain ⟨p, _, reply, v, hp, -, -, hr, rfl, hs⟩ := combine_read h
    exact ⟨p, false, reply, v, hp, hr, rfl, hs⟩
  case memoryCompare c w r x =>
    rw [perform_combination (i := .memoryCompare c w r x) rfl] at h
    obtain ⟨p, _, reply, v, hp, -, -, hr, rfl, hs⟩ := combine_read h
    exact ⟨p, false, reply, v, hp, hr, rfl, hs⟩
  case load signed w r x =>
    simp only [perform, load, bind_eq_ok, operandAddress_apply, EStateM.Result.ok.injEq,
      result_apply, pure_apply] at h
    obtain ⟨_, _, ⟨rfl, rfl⟩, _, _, ⟨⟨p, v⟩, s₁, hp, rfl, rfl⟩, rfl, rfl⟩ := h
    obtain ⟨reply, hp, hr, -, hs₁⟩ := loadPlaced_ok hp
    exact ⟨p, signed, reply, v, hp, hr, rfl, by rw [Session.machine_withRegisters, hs₁]⟩

theorem perform_store (h : perform word ia (.store w r x) s = .ok flow s') :
    ∃ p reply, (s.machine.place (x.address s.machine.registers) w .write).1 = .ok p ∧
      s.machine.memory.write p w (s.machine.registers.general r) = .ok reply ∧ flow = .next ∧
      s'.machine = { s.machine with
        tlb := (s.machine.place (x.address s.machine.registers) w .write).2
        memory := reply.after
        registers := s.machine.registers.noteStore p w.bytes
        counters := { s.machine.counters with stores := s.machine.counters.stores + 1 } } := by
  simp only [perform, store, bind_eq_ok, operandAddress_apply, general_apply, translate_eq_ok,
    EStateM.Result.ok.injEq, pure_apply] at h
  obtain ⟨_, _, ⟨rfl, rfl⟩, _, _, ⟨rfl, rfl⟩, _, _, ⟨p, _, ⟨hp, rfl⟩, hs⟩, rfl, rfl⟩ := h
  obtain ⟨reply, hr, hs⟩ := storePlaced_ok hs
  exact ⟨p, reply, hp, hr, rfl, hs⟩

theorem perform_loadReserve (h : perform word ia (.loadReserve w r x) s = .ok flow s') :
    ∃ p reply, (s.machine.place (x.address s.machine.registers) w .read).1 = .ok p ∧
      s.machine.memory.read p w false = .ok reply ∧ flow = .next ∧
      s'.machine = { s.machine with
        tlb := (s.machine.place (x.address s.machine.registers) w .read).2
        memory := reply.after
        registers :=
          (s.machine.registers.reserve ⟨p, w.bytes, reply.value⟩).setGeneral r reply.value
        counters := { s.machine.counters with loads := s.machine.counters.loads + 1 } } := by
  simp only [perform, loadReserve, bind_eq_ok, operandAddress_apply, mapRegisters_apply,
    EStateM.Result.ok.injEq, result_apply] at h
  obtain ⟨_, _, ⟨rfl, rfl⟩, ⟨p, v⟩, s₁, hl, _, _, ⟨-, rfl⟩, rfl, rfl⟩ := h
  obtain ⟨reply, hp, hr, rfl, hs₁⟩ := loadPlaced_ok hl
  refine ⟨p, reply, hp, hr, rfl, ?_⟩
  rw [Session.machine_withRegisters, Session.machine_withRegisters, hs₁]

/-- A conditional store that finds its place uses up the reservation, and stores if that was at
its own place. -/
theorem perform_storeConditional
    (hp : (s.machine.place (x.address s.machine.registers) w .write).1 = .ok p) :
    let s₁ := (s.withTlb (s.machine.place (x.address s.machine.registers) w .write).2).withRegisters
      s.machine.registers.dropReservation
    let s₂ := s₁.count fun c => { c with conditionalFailures := c.conditionalFailures + 1 }
    perform word ia (.storeConditional w r x) s =
      if s.machine.registers.reservation.any (·.address == p) then
        (do storePlaced p w (s.machine.registers.general r); result r 1 : Exec δ Flow) s₁
      else .ok .next
        (s₂.withRegisters (s.machine.registers.dropReservation.setGeneral r 0)) := by
  intro s₁ s₂
  have ht : translate (x.address s.machine.registers) w .write s =
      .ok p (s.withTlb (s.machine.place (x.address s.machine.registers) w .write).2) :=
    translate_eq_ok.mpr ⟨hp, rfl⟩
  show storeConditional w r x s = _
  unfold storeConditional
  rw [bind_of_eq_ok (operandAddress_apply x), bind_of_eq_ok (general_apply r), bind_of_eq_ok ht,
    bind_of_eq_ok (registers_apply), bind_of_eq_ok (mapRegisters_apply _), ite_apply]
  rfl

/-- Without a reservation at its place a conditional store makes no access that could trap. -/
theorem reservation_of_storeConditional_error
    (h : perform word ia (.storeConditional w r x) s = .error t s')
    (hp : (s.machine.place (x.address s.machine.registers) w .write).1 = .ok p) :
    s.machine.registers.reservation.any (·.address == p) = true := by
  by_contra hr
  rw [perform_storeConditional hp, if_neg hr] at h
  simp at h

/-- A conditional store that completes has used up the reservation. -/
theorem perform_storeConditional_ok
    (h : perform word ia (.storeConditional w r x) s = .ok flow s') :
    ∃ p, (s.machine.place (x.address s.machine.registers) w .write).1 = .ok p ∧ flow = .next ∧
      (s.machine.registers.reservation.any (·.address == p) = true ∧
        (∃ reply, s.machine.memory.write p w (s.machine.registers.general r) = .ok reply ∧
          s'.machine = { s.machine with
            tlb := (s.machine.place (x.address s.machine.registers) w .write).2
            memory := reply.after
            registers := s.machine.registers.dropReservation.setGeneral r 1
            counters := { s.machine.counters with stores := s.machine.counters.stores + 1 } }) ∨
      s.machine.registers.reservation.any (·.address == p) = false ∧
        s'.machine = { s.machine with
          tlb := (s.machine.place (x.address s.machine.registers) w .write).2
          registers := s.machine.registers.dropReservation.setGeneral r 0
          counters := { s.machine.counters with
            conditionalFailures := s.machine.counters.conditionalFailures + 1 } }) := by
  obtain ⟨p, hp⟩ : ∃ p, (s.machine.place (x.address s.machine.registers) w .write).1 = .ok p := by
    simp only [perform, storeConditional, bind_eq_ok, operandAddress_apply, general_apply,
      translate_eq_ok, EStateM.Result.ok.injEq] at h
    obtain ⟨_, _, ⟨rfl, rfl⟩, _, _, ⟨rfl, rfl⟩, p, _, ⟨hp, -⟩, -⟩ := h
    exact ⟨p, hp⟩
  refine ⟨p, hp, ?_⟩
  rw [perform_storeConditional hp] at h
  split at h
  · rename_i hr
    simp only [bind_eq_ok, result_apply, EStateM.Result.ok.injEq] at h
    obtain ⟨_, s₂, hs, rfl, rfl⟩ := h
    obtain ⟨reply, hw, hs₂⟩ := storePlaced_ok hs
    refine ⟨rfl, .inl ⟨hr, reply, hw, ?_⟩⟩
    rw [Session.machine_withRegisters, hs₂]
    rfl
  · rename_i hr
    obtain ⟨rfl, rfl⟩ := EStateM.Result.ok.inj h
    exact ⟨rfl, .inr ⟨by simpa using hr, rfl⟩⟩

/-- A privileged instruction that completes has not reached memory, reservation, counts or the
state of the run. -/
theorem perform_privileged {i : Instruction} (hi : i.isPrivileged = true)
    (h : perform word ia i s = .ok flow s') :
    s'.machine.memory = s.machine.memory ∧
      s'.machine.registers.reservation = s.machine.registers.reservation ∧
      s'.machine.counters = s.machine.counters ∧ s'.machine.state = s.machine.state := by
  cases i <;> cases hi
  case moveToControl r c =>
    simp only [perform, bind_eq_ok, general_apply, mapRegisters_apply, pure_apply,
      EStateM.Result.ok.injEq] at h
    obtain ⟨_, _, ⟨rfl, rfl⟩, _, _, ⟨-, rfl⟩, -, rfl⟩ := h
    exact ⟨rfl, rfl, rfl, rfl⟩
  case physicalAddress r b =>
    simp only [perform, resolve, bind_eq_ok, general_apply, machine_apply, mapMachine_apply,
      ofExcept_eq_ok, result_apply, EStateM.Result.ok.injEq] at h
    obtain ⟨_, _, ⟨rfl, rfl⟩, v, _, ⟨_, _, ⟨rfl, rfl⟩, _, _, ⟨-, rfl⟩, -, rfl⟩, -, rfl⟩ := h
    exact ⟨rfl, Registers.reservation_setGeneral _ _ _, rfl, rfl⟩
  case tlbInsert r b a =>
    simp only [perform, tlbInsert, bind_eq_ok, general_apply, machine_apply, mapMachine_apply,
      emit_apply, pure_apply, EStateM.Result.ok.injEq] at h
    obtain ⟨_, _, ⟨rfl, rfl⟩, _, _, ⟨rfl, rfl⟩, _, _, ⟨rfl, rfl⟩, _, _, ⟨rfl, rfl⟩, _, _,
      ⟨-, rfl⟩, _, _, ⟨-, rfl⟩, -, rfl⟩ := h
    exact ⟨rfl, rfl, rfl, rfl⟩
  case tlbPurge b =>
    simp only [perform, tlbPurge, bind_eq_ok, general_apply, machine_apply, mapMachine_apply,
      ite_apply, EStateM.Result.ok.injEq] at h
    obtain ⟨_, _, ⟨rfl, rfl⟩, _, _, ⟨rfl, rfl⟩, _, _, ⟨-, rfl⟩, h⟩ := h
    split at h
    · obtain ⟨-, rfl⟩ := EStateM.Result.ok.inj h
      exact ⟨rfl, rfl, rfl, rfl⟩
    · simp only [bind_eq_ok, emit_apply, pure_apply, EStateM.Result.ok.injEq] at h
      obtain ⟨_, _, ⟨-, rfl⟩, -, rfl⟩ := h
      exact ⟨rfl, rfl, rfl, rfl⟩
  case tlbReset =>
    simp only [perform, bind_eq_ok, mapMachine_apply, pure_apply, EStateM.Result.ok.injEq] at h
    obtain ⟨_, _, ⟨-, rfl⟩, -, rfl⟩ := h
    exact ⟨rfl, rfl, rfl, rfl⟩
  case modifyStatus on r modes =>
    simp only [perform, modifyStatus, bind_eq_ok, status_apply, setGeneral_apply,
      mapRegisters_apply, pure_apply, EStateM.Result.ok.injEq] at h
    obtain ⟨_, _, ⟨rfl, rfl⟩, _, _, ⟨-, rfl⟩, _, _, ⟨-, rfl⟩, -, rfl⟩ := h
    exact ⟨rfl, Registers.reservation_setGeneral _ _ _, rfl, rfl⟩
  case returnFromTrap =>
    simp only [perform, bind_eq_ok, control_apply, pure_apply, EStateM.Result.ok.injEq] at h
    obtain ⟨_, _, ⟨rfl, rfl⟩, -, rfl⟩ := h
    exact ⟨rfl, rfl, rfl, rfl⟩
  all_goals
    simp only [perform, pure_apply, EStateM.Result.ok.injEq] at h
    obtain ⟨-, rfl⟩ := h
    exact ⟨rfl, rfl, rfl, rfl⟩

/-- An unprivileged instruction that completes goes on or branches, and leaves controls, status
and contents of the translation buffer. -/
theorem perform_unprivileged {i : Instruction} (hi : i.isPrivileged = false)
    (h : perform word ia i s = .ok flow s') :
    (flow = .next ∨ ∃ t, flow = .branch t) ∧ s.machine.Confines s'.machine := by
  rcases hr : i.read? with _ | ⟨w, r, x⟩
  · rcases ha : i.isAccess with _ | _
    · obtain ⟨f, -, hf⟩ := perform_calculation (δ := δ) word ia ha hi
      rw [hf] at h
      split at h
      · rename_i o _
        obtain ⟨rfl, rfl⟩ := EStateM.Result.ok.inj h
        refine ⟨?_, rfl, by simp, by simp, rfl, rfl, rfl, .inl rfl⟩
        rcases o with ⟨_ | t, _, _⟩
        · exact .inl rfl
        · exact .inr ⟨t, rfl⟩
      · simp at h
    · cases i <;> cases ha <;> cases hr
      case store.refl.refl w r x =>
        obtain ⟨p, reply, hp, hw, rfl, hs⟩ := perform_store h
        rw [hs]
        exact ⟨.inl rfl, .of_place (by simp) (by simp) rfl
          (.inr ⟨_, w, p, _, reply, hp, hw, rfl⟩)⟩
      case loadReserve.refl.refl w r x =>
        obtain ⟨p, reply, hp, hm, rfl, hs⟩ := perform_loadReserve h
        rw [hs]
        exact ⟨.inl rfl, .of_place (by simp [Registers.reserve]) (by simp [Registers.reserve]) rfl
          (.inl (Memory.physical_read hm))⟩
      case storeConditional.refl.refl w r x =>
        obtain ⟨p, hp, rfl, ⟨-, reply, hw, hs⟩ | ⟨-, hs⟩⟩ := perform_storeConditional_ok h
        · rw [hs]
          exact ⟨.inl rfl, .of_place (by simp [Registers.dropReservation])
            (by simp [Registers.dropReservation]) rfl (.inr ⟨_, w, p, _, reply, hp, hw, rfl⟩)⟩
        · rw [hs]
          exact ⟨.inl rfl, .of_place (by simp [Registers.dropReservation])
            (by simp [Registers.dropReservation]) rfl (.inl rfl)⟩
  · obtain ⟨p, signed, reply, v, hp, hm, rfl, hs⟩ := perform_read hr h
    rw [hs]
    exact ⟨.inl rfl, .of_place (by simp) (by simp) rfl (.inl (Memory.physical_read hm))⟩

/-! ## Traps -/

theorem touched_of_loadPlaced_error (h : loadPlaced a w signed s = .error t s') :
    s.Touched s' := by
  simp only [loadPlaced, bind_eq_error, readMemory_apply, absorb_eq_error, count_apply,
    pure_apply, reduceCtorEq, and_false, exists_false, or_false] at h
  rcases h with h | ⟨_, _, h, -, rfl⟩
  · exact touched_of_translate_error h
  · exact touched_of_translate h

theorem touched_of_previewLoad (h : previewLoad a w signed s = .ok (p, v) s') :
    s.Touched s' := by
  simp only [previewLoad, bind_eq_ok, previewMemory_apply, absorb_eq_ok, pure_apply,
    EStateM.Result.ok.injEq] at h
  obtain ⟨_, _, ht, _, _, ⟨reply, hr, -, rfl⟩, -, rfl⟩ := h
  exact (touched_of_translate ht).trans (.afterReply (Memory.after_preview hr))

theorem touched_of_previewLoad_error (h : previewLoad a w signed s = .error t s') :
    s.Touched s' := by
  simp only [previewLoad, bind_eq_error, previewMemory_apply, absorb_eq_error, pure_apply,
    reduceCtorEq, and_false, exists_false, or_false] at h
  rcases h with h | ⟨_, _, h, -, rfl⟩
  · exact touched_of_translate_error h
  · exact touched_of_translate h

/-- What was previewed can be committed. -/
theorem commitLoad_of_previewLoad {s₁ s₂ : Session δ}
    (h : previewLoad a w signed s = .ok (p, v) s₁) : commitLoad p w s₁ ≠ .error t s₂ := by
  intro hc
  obtain ⟨_, -, hr, -, hs₁⟩ := previewLoad_ok h
  obtain ⟨q, hq⟩ := Memory.read_of_preview hr false
  simp [commitLoad, hs₁, hq] at hc

/-- A combination that traps has at most previewed its operand. -/
theorem combine_error (h : combine word o s = .error t s') :
    previewLoad (o.operand.address s.machine.registers) o.width true s = .error t s' ∨
      ∃ p v, previewLoad (o.operand.address s.machine.registers) o.width true s =
        .ok (p, v) s' := by
  simp only [combine, bind_eq_error, operandAddress_apply, general_apply, status_apply,
    EStateM.Result.ok.injEq, reduceCtorEq, false_or] at h
  obtain ⟨_, _, ⟨rfl, rfl⟩, _, _, ⟨rfl, rfl⟩, h | ⟨⟨p, u⟩, s₁, hp, _, _, ⟨rfl, rfl⟩, h⟩⟩ := h
  · exact .inl h
  · generalize o.result? _ _ _ = y at h
    rcases y with _ | v
    · obtain ⟨-, rfl⟩ := EStateM.Result.error.inj h
      exact .inr ⟨p, u, hp⟩
    · -- the preview has found the operand, so reading it cannot trap
      simp only [bind_eq_error, result_apply, reduceCtorEq, and_false, exists_false,
        or_false] at h
      exact absurd h (commitLoad_of_previewLoad hp)

theorem touched_of_combine_error (h : combine word o s = .error t s') : s.Touched s' := by
  rcases combine_error h with h | ⟨_, _, h⟩
  · exact touched_of_previewLoad_error h
  · exact touched_of_previewLoad h

theorem storePlaced_error (h : storePlaced p w v s = .error t s') : s' = s := by
  simp only [storePlaced, bind_eq_error, count_apply, reduceCtorEq, and_false, exists_false,
    or_false] at h
  exact hostStore_error h

theorem touched_of_access_error {i : Instruction} (hi : i.isAccess = true)
    (h : perform word ia i s = .error t s') : s.Touched s' := by
  cases i <;> cases hi
  case memoryBinary op w r x m =>
    rw [perform_combination (i := .memoryBinary op w r x m) rfl] at h
    exact touched_of_combine_error h
  case memoryCompare c w r x =>
    rw [perform_combination (i := .memoryCompare c w r x) rfl] at h
    exact touched_of_combine_error h
  case load signed w r x =>
    simp only [perform, load, bind_eq_error, operandAddress_apply, result_apply, pure_apply,
      EStateM.Result.ok.injEq, reduceCtorEq, and_false, exists_false, or_false, false_or] at h
    obtain ⟨_, _, ⟨rfl, rfl⟩, h⟩ := h
    exact touched_of_loadPlaced_error h
  case store w r x =>
    simp only [perform, store, bind_eq_error, operandAddress_apply, general_apply, pure_apply,
      EStateM.Result.ok.injEq, reduceCtorEq, and_false, exists_false, or_false, false_or] at h
    obtain ⟨_, _, ⟨rfl, rfl⟩, _, _, ⟨rfl, rfl⟩, h | ⟨p, s₁, hp, h⟩⟩ := h
    · exact touched_of_translate_error h
    · rw [storePlaced_error h]
      exact touched_of_translate hp
  case loadReserve w r x =>
    simp only [perform, loadReserve, bind_eq_error, operandAddress_apply, mapRegisters_apply,
      result_apply, EStateM.Result.ok.injEq, reduceCtorEq, and_false, exists_false, or_false,
      false_or] at h
    obtain ⟨_, _, ⟨rfl, rfl⟩, h⟩ := h
    exact touched_of_loadPlaced_error h
  case storeConditional w r x =>
    simp only [perform, storeConditional, bind_eq_error, operandAddress_apply, general_apply,
      registers_apply, mapRegisters_apply, ite_apply, EStateM.Result.ok.injEq, reduceCtorEq,
      false_or] at h
    obtain ⟨_, _, ⟨rfl, rfl⟩, _, _, ⟨rfl, rfl⟩, h | ⟨p, s₁, hp, _, _, ⟨rfl, rfl⟩, _, _,
      ⟨-, rfl⟩, h⟩⟩ := h
    · exact touched_of_translate_error h
    · split at h
      · simp only [bind_eq_error, result_apply, reduceCtorEq, and_false, exists_false,
          or_false] at h
        rw [storePlaced_error h]
        exact (touched_of_translate hp).trans (.withRegisters _ _ none)
      · simp [bind_eq_error] at h

theorem touched_of_privileged_error {i : Instruction} (hi : i.isPrivileged = true)
    (h : perform word ia i s = .error t s') : s.Touched s' := by
  cases i <;> cases hi
  case physicalAddress r b =>
    simp only [perform, resolve, bind_eq_error, general_apply, machine_apply, mapMachine_apply,
      ofExcept_eq_error, result_apply, EStateM.Result.ok.injEq, reduceCtorEq, and_false,
      exists_false, or_false, false_or] at h
    obtain ⟨_, _, ⟨rfl, rfl⟩, _, _, ⟨rfl, rfl⟩, _, _, ⟨-, rfl⟩, -, rfl⟩ := h
    exact .withTlb (Tlb.contents_resolve _ _ _)
  case tlbPurge b =>
    simp only [perform, tlbPurge, bind_eq_error, general_apply, machine_apply, mapMachine_apply,
      ite_apply, EStateM.Result.ok.injEq, reduceCtorEq, false_or] at h
    obtain ⟨_, _, ⟨rfl, rfl⟩, _, _, ⟨rfl, rfl⟩, _, _, ⟨-, rfl⟩, h⟩ := h
    split at h <;> simp at h
  all_goals
    simp [perform, tlbInsert, modifyStatus] at h

/-- An instruction that traps has changed nothing but recency and the reservation. -/
theorem touched_of_perform_error {i : Instruction} (h : perform word ia i s = .error t s') :
    s.Touched s' := by
  rcases ha : i.isAccess with _ | _
  · rcases hp : i.isPrivileged with _ | _
    · obtain ⟨f, -, hf⟩ := perform_calculation (δ := δ) word ia ha hp
      rw [hf] at h
      split at h
      · simp at h
      · obtain ⟨-, rfl⟩ := EStateM.Result.error.inj h
        exact .refl s
    · exact touched_of_privileged_error hp h
  · exact touched_of_access_error ha h

end Exec
end Processor64
