import Processor64.Proofs.Reservations

/-!
# Previews and the input they save

A read of a device may take input that is gone afterwards. Where devices foretell what they would
answer, a preview answers as the read would and takes nothing (`Memory.preview_value`). An
instruction that combines a register with an operand in memory computes with a preview and reads
when its result stands: if it completes it has read its operand once, and if it traps it has not
(`foretold_and_read_once`).
-/

namespace Processor64

variable {δ : Type}

/-! ## Devices that foretell their reads -/

/-- A peek, cut to the width, is what a read would answer now. -/
def Device.Foretells [Device δ] (d : δ) : Prop :=
  ∀ offset w, w.truncate (peek d offset w) = (read d offset w).1

/-- A console foretells its reads. -/
theorem Peripheral.foretells_console [Device δ] (c : Console) :
    Device.Foretells (Peripheral.console c : Peripheral δ) :=
  fun offset w => Console.honest c offset w

theorem Width.extend_truncate (w : Width) (v : Word) (signed : Bool) :
    w.extend (w.truncate v) signed = w.extend v signed := by
  cases signed
  · exact w.truncate_truncate v
  · cases w <;> simp [extend, truncate, bits, bytes]

/-- What was read and widened without sign can still be widened with it. -/
theorem Width.extend_extend (w : Width) (v : Word) (signed : Bool) :
    w.extend (w.extend v false) signed = w.extend v signed :=
  w.extend_truncate v signed

namespace Memory

variable [Device δ] {m : Memory δ} {p : Word} {w : Width} {signed : Bool}

/-- All devices foretell their reads. -/
def Foretold (m : Memory δ) : Prop := ∀ d ∈ m.io.devices, Device.Foretells d

/-- Where every device of a kind is honest, and consoles are, all devices foretell their reads. -/
theorem foretold_of_honest (h : Device.Honest δ) (m : Memory δ) : m.Foretold := by
  intro d _
  cases d with
  | console c => exact Peripheral.foretells_console c
  | custom d => exact h d

/-- A preview answers what a read would, or traps as the read would. -/
theorem preview_value (h : m.Foretold) (p : Word) (w : Width) (signed : Bool) :
    (m.preview p w signed).map (·.value) = (m.read p w signed).map (·.value) := by
  rcases hp : p.inIoWindow
  · rw [preview_physical hp, read_physical hp]
  · rw [preview_io hp, read_io hp, IoWindow.preview, IoWindow.read]
    rcases m.io.target? p w with _ | (place | start)
    · rfl
    · have hd := h _ (List.getElem_mem place.isLt) (p - Device.base m.io.devices[place]) w
      show Except.ok (w.extend (Device.peek m.io.devices[place] _ w) signed) =
        Except.ok (w.extend (Device.read m.io.devices[place] _ w).1 signed)
      rw [← w.extend_truncate]
      exact congrArg (fun v => Except.ok (w.extend v signed)) hd
    · rfl

/-- The value of a read is that of a read without sign, widened. -/
theorem read_value (m : Memory δ) (p : Word) (w : Width) (signed : Bool) :
    (m.read p w signed).map (·.value) =
      (m.read p w false).map fun r => w.extend r.value signed := by
  rcases hp : p.inIoWindow
  · rw [read_physical hp, read_physical hp, ByteStore.read, ByteStore.read]
    split
    · simp [Except.map, Width.extend_extend]
    · rfl
  · rw [read_io hp, read_io hp, IoWindow.read, IoWindow.read]
    rcases m.io.target? p w with _ | (place | start) <;>
      simp [Except.map, Reply.within, Width.extend_extend]

/-- What was previewed is what is read then, widened as the preview was. -/
theorem value_of_preview (h : m.Foretold) {seen r : Reply (Memory δ) Word}
    (hseen : m.preview p w signed = .ok seen) (hr : m.read p w false = .ok r) :
    seen.value = w.extend r.value signed := by
  have hvalue := m.preview_value h p w signed
  rw [read_value, hseen, hr] at hvalue
  exact Except.ok.inj hvalue

end Memory

/-! ## Reads of devices -/

/-- The read of a device that an event reports. -/
def Event.read? : Event → Option Transaction
  | .bus t => if t.operation = .read then some t else none
  | _ => none

/-- The reads of devices that have been reported. -/
def Session.deviceReads (s : Session δ) : List Transaction := s.log.toList.filterMap Event.read?

namespace Memory

variable [Device δ] {m : Memory δ} {p : Word} {w : Width} {signed : Bool}

/-- The read of a device that a read of memory comes to, if it does. -/
def deviceRead? (m : Memory δ) (p : Word) (w : Width) : Option Transaction :=
  if p.inIoWindow then
    match m.io.target? p w with
    | some (.device place) => some (IoWindow.transaction m.io.devices[place] p w .read)
    | _ => none
  else none

theorem deviceReads_of_read {r : Reply (Memory δ) Word} (h : m.read p w signed = .ok r) :
    r.events.filterMap Event.read? = (m.deviceRead? p w).toList := by
  rcases hp : p.inIoWindow
  · rw [read_physical hp, exceptMap_eq_ok] at h
    obtain ⟨v, -, rfl⟩ := h
    simp [deviceRead?, hp]
  · rw [read_io hp, exceptMap_eq_ok] at h
    obtain ⟨q, hq, rfl⟩ := h
    rcases IoWindow.read_cases hq with ⟨_, _, ht, rfl, rfl⟩ | ⟨_, ht, rfl⟩ <;>
      simp [deviceRead?, hp, ht, Reply.within, Event.read?, IoWindow.transaction]

theorem deviceReads_of_preview {r : Reply (Memory δ) Word} (h : m.preview p w signed = .ok r) :
    r.events.filterMap Event.read? = [] := by
  rcases hp : p.inIoWindow
  · rw [preview_physical hp, exceptMap_eq_ok] at h
    obtain ⟨v, -, rfl⟩ := h
    rfl
  · rw [preview_io hp, exceptMap_eq_ok] at h
    obtain ⟨q, hq, rfl⟩ := h
    rcases IoWindow.preview_cases hq with ⟨_, _, -, -, rfl⟩ | ⟨_, -, rfl⟩ <;>
      simp [Reply.within, Event.read?, IoWindow.transaction]

end Memory

/-! ## Consoles -/

def Peripheral.console? : Peripheral δ → Option Console
  | console c => some c
  | custom _ => none

/-- The consoles with their input and output, each at its place among the devices. -/
def IoWindow.consoles (io : IoWindow δ) : List (Option Console) :=
  io.devices.map Peripheral.console?

theorem IoWindow.consoles_set {io : IoWindow δ} {place : Nat} {d : Peripheral δ}
    (h : ∀ _ : place < io.devices.length, d.console? = io.devices[place].console?) :
    ({ io with devices := io.devices.set place d } : IoWindow δ).consoles = io.consoles := by
  refine List.ext_getElem (by simp [consoles]) fun i hi _ => ?_
  simp only [consoles, List.getElem_map, List.getElem_set]
  split
  · rename_i hplace
    subst hplace
    exact h (by simpa [consoles] using hi)
  · rfl

/-- A read that takes input of a console answers with a byte. -/
theorem Memory.consoles_read [Device δ] {m : Memory δ} {p : Word} {w : Width}
    {r : Reply (Memory δ) Word} (h : m.read p w false = .ok r) :
    r.after.io.consoles = m.io.consoles ∨ r.value.toNat < 256 := by
  rcases hp : p.inIoWindow
  · exact .inl (by rw [(read_eq_ok hp h).2])
  · rw [read_io hp, exceptMap_eq_ok] at h
    obtain ⟨q, hq, rfl⟩ := h
    rcases IoWindow.read_cases hq with ⟨place, c | d, -, hd, rfl⟩ | ⟨_, -, rfl⟩
    · rcases c.read_same_or_byte (p - c.base) w with hsame | hbyte
      · refine .inl (IoWindow.consoles_set fun _ => ?_)
        exact (congrArg some hsame).trans (congrArg Peripheral.console? hd.symm)
      · exact .inr hbyte
    · refine .inl (IoWindow.consoles_set fun _ => ?_)
      exact (congrArg Peripheral.console? hd).symm
    · exact .inl rfl

namespace Session

variable {s : Session δ}

@[simp]
theorem deviceReads_emit (s : Session δ) (es : List Event) :
    (s.emit es).deviceReads = s.deviceReads ++ es.filterMap Event.read? := by
  simp [deviceReads, emit]

@[simp]
theorem deviceReads_mapMachine (s : Session δ) (f : Machine δ → Machine δ) :
    (s.mapMachine f).deviceReads = s.deviceReads := rfl

@[simp]
theorem deviceReads_withTlb (s : Session δ) (t : Tlb) :
    (s.withTlb t).deviceReads = s.deviceReads := rfl

@[simp]
theorem deviceReads_withRegisters (s : Session δ) (r : Registers) :
    (s.withRegisters r).deviceReads = s.deviceReads := rfl

@[simp]
theorem deviceReads_count (s : Session δ) (f : Counters → Counters) :
    (s.count f).deviceReads = s.deviceReads := rfl

@[simp]
theorem deviceReads_afterReply {α : Type} (s : Session δ) (r : Reply (Memory δ) α) :
    (s.afterReply r).deviceReads = s.deviceReads ++ r.events.filterMap Event.read? :=
  deviceReads_emit _ _

theorem deviceReads_retire (s : Session δ) (ia : BitVec 52) (flow : Flow) :
    (s.retire ia flow).2.deviceReads = s.deviceReads := by
  unfold retire
  cases flow <;> dsimp only <;> split <;> simp [Event.read?]

theorem deviceReads_takeTrap (s : Session δ) (t : Trap) (ia : BitVec 52) :
    (s.takeTrap t ia).2.deviceReads = s.deviceReads := by
  unfold takeTrap
  dsimp only
  split
  · split <;> simp [deliver, stopTrapped, Event.read?]
  · simp [stopTrapped, Event.read?]

end Session

/-! ## Instructions with an operand in memory -/

/-- The physical address of the operand. -/
def Machine.operandPlace (m : Machine δ) (o : Combination) : Except Trap Word :=
  (m.place (o.operand.address m.registers) o.width .read).1

namespace Exec

variable [Device δ] {s s' : Session δ} {a p v : Word} {w : Width} {t : Trap} {flow : Flow}
  {word : InstructionWord} {o : Combination}

theorem deviceReads_previewLoad (h : previewLoad a w true s = .ok (p, v) s') :
    s'.deviceReads = s.deviceReads := by
  simp only [previewLoad, bind_eq_ok, translate_eq_ok, previewMemory_apply, absorb_eq_ok,
    pure_apply, EStateM.Result.ok.injEq] at h
  obtain ⟨_, _, ⟨-, rfl⟩, _, _, ⟨reply, hr, -, rfl⟩, -, rfl⟩ := h
  simp [Memory.deviceReads_of_preview hr]

theorem deviceReads_previewLoad_error (h : previewLoad a w true s = .error t s') :
    s'.deviceReads = s.deviceReads := by
  simp only [previewLoad, bind_eq_error, translate_eq_ok, translate_eq_error, previewMemory_apply,
    absorb_eq_error, pure_apply, reduceCtorEq, and_false, exists_false, or_false] at h
  rcases h with ⟨-, rfl⟩ | ⟨_, _, ⟨-, rfl⟩, -, rfl⟩ <;> rfl

theorem deviceReads_commitLoad {u : Unit} (h : commitLoad p w s = .ok u s') :
    s'.deviceReads = s.deviceReads ++ (s.machine.memory.deviceRead? p w).toList := by
  simp only [commitLoad, bind_eq_ok, discard_eq_ok, readMemory_apply, absorb_eq_ok, count_apply,
    EStateM.Result.ok.injEq] at h
  obtain ⟨_, _, ⟨_, reply, hr, -, rfl⟩, -, rfl⟩ := h
  simp [Memory.deviceReads_of_read hr]

/-- What was previewed can be read. -/
theorem commitLoad_of_previewLoad_ok {signed : Bool}
    (h : previewLoad a w signed s = .ok (p, v) s') : ∃ s₂, commitLoad p w s' = .ok () s₂ := by
  rcases hc : commitLoad p w s' with ⟨_, s₂⟩ | ⟨t, s₂⟩
  · exact ⟨s₂, rfl⟩
  · exact absurd hc (commitLoad_of_previewLoad h)

/-- An operation with memory that completes reads its device once. -/
theorem deviceReads_combine (h : combine word o s = .ok flow s')
    (hp : s.machine.operandPlace o = .ok p) :
    s'.deviceReads = s.deviceReads ++ (s.machine.memory.deviceRead? p o.width).toList := by
  obtain ⟨q, _, _, s₁, s₂, hpreview, -, hc, -, rfl⟩ := combine_ok h
  obtain ⟨_, hq, -, -, hs₁⟩ := previewLoad_ok hpreview
  obtain rfl : p = q := Except.ok.inj (hp.symm.trans hq)
  rw [Session.deviceReads_withRegisters, deviceReads_commitLoad hc,
    deviceReads_previewLoad hpreview, hs₁]

/-- An operation with memory that traps reads no device. -/
theorem deviceReads_combine_error (h : combine word o s = .error t s') :
    s'.deviceReads = s.deviceReads := by
  rcases combine_error h with h | ⟨_, _, h⟩
  · exact deviceReads_previewLoad_error h
  · exact deviceReads_previewLoad h

theorem execute_combination {i : Instruction} (hi : Instruction.ofWord? word = some i)
    (ho : i.combination? = some o) (ia : BitVec 52) (s : Session δ) : execute word ia s =
      if i.isLegal then combine word o s else .error (word.trap .illegalInstruction) s := by
  have hp : word.isPrivileged = false := by
    rw [Instruction.isPrivileged_of_ofWord? hi]
    cases i <;> cases ho <;> rfl
  simp [execute_apply, hp, hi, perform_combination ho]

end Exec

namespace Session

variable [Device δ] {s s₁ : Session δ} {i : Instruction} {o : Combination}

/-- From `s`, whose next instruction has been fetched in `s₁`, a cycle completes that has read its
operand once and combined what it read. -/
structure ReadsOnce (s s₁ : Session δ) (o : Combination) : Prop where
  operand : ∃ p reply v, s₁.machine.operandPlace o = .ok p ∧
    s₁.machine.memory.read p o.width false = .ok reply ∧
    o.result? s₁.machine.registers.status.checksOverflow
      (s₁.machine.registers.general o.register) (o.width.extend reply.value true) = some v ∧
    s.cycle.2.machine.memory = reply.after ∧
    s.cycle.2.machine.registers.generals =
      (s₁.machine.registers.setGeneral o.register v).generals ∧
    s.cycle.2.deviceReads = s₁.deviceReads ++ (s₁.machine.memory.deviceRead? p o.width).toList
  loads : s.cycle.2.machine.counters.loads = s₁.machine.counters.loads + 1

/-- From `s`, whose next instruction has been fetched in `s₁`, a cycle traps that has not read its
operand. -/
structure ReadsNot (s s₁ : Session δ) : Prop where
  memory : s.cycle.2.machine.memory = s₁.machine.memory
  deviceReads : s.cycle.2.deviceReads = s₁.deviceReads
  loads : s.cycle.2.machine.counters.loads = s₁.machine.counters.loads
  generals : s.cycle.2.machine.registers.generals = s₁.machine.registers.generals
  consoles : s.cycle.2.machine.memory.io.consoles = s.machine.memory.io.consoles

omit [Device δ] in
theorem loads_retire (s : Session δ) (ia : BitVec 52) (flow : Flow) :
    (s.retire ia flow).2.machine.counters.loads = s.machine.counters.loads := by
  rw [machine_retire]

/-- The word of an instruction that has an operand in memory was not taken from a console. -/
theorem consoles_of_fetched? (hf : s.fetched? = some (i, s₁)) (ho : i.combination? = some o) :
    s₁.machine.memory.io.consoles = s.machine.memory.io.consoles := by
  obtain ⟨word, hfetch, hi⟩ := fetched?_eq_some hf
  obtain ⟨_, reply, -, hr, hw, hs₁⟩ := Exec.fetch_ok hfetch
  rw [hs₁]
  rcases Memory.consoles_read hr with h | h
  · exact h
  · -- so small a word does nothing, and has no operand
    have hlt : word.toNat < 256 := by
      rw [← hw, BitVec.extractLsb'_toNat]
      omega
    obtain rfl := Option.some.inj (hi.symm.trans (Exec.ofWord?_of_lt hlt))
    cases ho

omit [Device δ] in
theorem takeTrap_keeps (s : Session δ) (t : Trap) (ia : BitVec 52) :
    (s.takeTrap t ia).2.machine.memory = s.machine.memory ∧
      (s.takeTrap t ia).2.machine.counters.loads = s.machine.counters.loads ∧
      (s.takeTrap t ia).2.machine.registers.generals = s.machine.registers.generals := by
  rcases takeTrap_cases s t ia with ⟨_, _, -, -, -, -, hm⟩ | ⟨-, hm⟩ <;> rw [hm] <;>
    exact ⟨rfl, rfl, rfl⟩

/-- What is left of a cycle once its instruction has been fetched. -/
theorem instructionAt_of_fetched? (hf : s.fetched? = some (i, s₁)) :
    ∃ word, Instruction.ofWord? word = some i ∧
      Exec.instructionAt s.machine.registers.status.address s.begun = (do
        let flow ← Exec.execute word s.machine.registers.status.address
        Exec.countGroup word
        return flow : Exec δ Flow)
          (s₁.withRegisters { s₁.machine.registers with instruction := word }) := by
  obtain ⟨word, hfetch, hi⟩ := fetched?_eq_some hf
  refine ⟨word, hi, ?_⟩
  unfold Exec.instructionAt
  exact (Exec.bind_of_eq_ok hfetch).trans (Exec.bind_of_eq_ok (Exec.mapRegisters_apply _))

/-- Without a trap, a device is read exactly once and as foretold. -/
theorem readsOnce_of_no_trap (hf : s.fetched? = some (i, s₁)) (hm : s₁.machine.memory.Foretold)
    (ho : i.combination? = some o) (ht : s.trap? = none) : s.ReadsOnce s₁ o := by
  obtain ⟨word, hi, hat⟩ := instructionAt_of_fetched? hf
  obtain ⟨flow, s₃, he, hc⟩ := cycle_of_no_trap ht
  simp only [hat, Exec.bind_eq_ok, Exec.countGroup, Exec.count_apply, Exec.pure_apply,
    EStateM.Result.ok.injEq, Exec.execute_combination hi ho] at he
  obtain ⟨_, s₂, hx, _, _, ⟨-, rfl⟩, rfl, rfl⟩ := he
  split at hx
  · have hreads {q} := Exec.deviceReads_combine (p := q) hx
    obtain ⟨p, seen, reply, v, hp, hseen, hv, hr, -, hs₂⟩ := Exec.combine_read hx
    rw [Memory.value_of_preview (show Memory.Foretold _ from hm) hseen hr] at hv
    have hgenerals : s₂.machine.registers.generals =
        (s₁.machine.registers.setGeneral o.register v).generals := by
      rw [hs₂]
      apply Registers.generals_setGeneral_congr
      rfl
    refine ⟨⟨p, reply, v, hp, hr, hv, ?_, ?_, ?_⟩, ?_⟩
    · rw [hc, machine_retire, machine_count, hs₂]
    · rw [hc, machine_retire, ← hgenerals]
      rfl
    · rw [hc, deviceReads_retire, deviceReads_count, hreads hp]
      rfl
    · rw [hc, loads_retire, machine_count, hs₂]
      dsimp only
      split <;> rfl
  · cases hx

/-- With a trap, no device is read. -/
theorem readsNot_of_trap {t : Trap} (hf : s.fetched? = some (i, s₁))
    (ho : i.combination? = some o) (ht : s.trap? = some t) : s.ReadsNot s₁ := by
  obtain ⟨word, hi, hat⟩ := instructionAt_of_fetched? hf
  obtain ⟨s₂, he, hc⟩ := cycle_of_trap ht
  simp only [hat, Exec.bind_eq_error, Exec.countGroup, Exec.count_apply, Exec.pure_apply,
    Exec.execute_combination hi ho, reduceCtorEq, and_false, exists_false, or_false] at he
  have htouched : s₁.Touched s₂ ∧ s₂.deviceReads = s₁.deviceReads := by
    have hfirst : s₁.Touched (s₁.withRegisters { s₁.machine.registers with instruction := word }) :=
      .withRegisters s₁ word s₁.machine.registers.reservation
    split at he
    · have hreads := Exec.deviceReads_combine_error he
      exact ⟨hfirst.trans (Exec.touched_of_combine_error he), hreads⟩
    · obtain ⟨-, rfl⟩ := EStateM.Result.error.inj he
      exact ⟨hfirst, rfl⟩
  obtain ⟨⟨_, _, _, _, -, hs₂⟩, hreads⟩ := htouched
  obtain ⟨hmemory, hloads, hgenerals⟩ := takeTrap_keeps s₂ t s.machine.registers.status.address
  rw [← hc] at hmemory hloads hgenerals
  have hsame : s.cycle.2.machine.memory = s₁.machine.memory := by rw [hmemory, hs₂]
  exact {
    memory := hsame
    deviceReads := by rw [hc, deviceReads_takeTrap, hreads]
    loads := by rw [hloads, hs₂]
    generals := by rw [hgenerals, hs₂]
    consoles := by rw [hsame, consoles_of_fetched? hf ho] }

/-- Previews answer as reads would and leave memory and devices alone; what was previewed can be
read; and an instruction with an operand in memory has read it once if it completes, and not at all
if it traps. -/
theorem foretold_and_read_once :
    Device.Honest Console ∧
    (∀ m : Memory δ, m.Foretold → ∀ p w signed,
      (m.preview p w signed).map (·.value) = (m.read p w signed).map (·.value) ∧
      ∀ r, m.preview p w signed = .ok r → r.after = m ∧ r.events.filterMap Event.read? = []) ∧
    (∀ (s s₁ : Session δ) a w signed p v, Exec.previewLoad a w signed s = .ok (p, v) s₁ →
      ∃ s₂, Exec.commitLoad p w s₁ = .ok () s₂) ∧
    ∀ (s s₁ : Session δ) i o, s.fetched? = some (i, s₁) → i.combination? = some o →
      s₁.machine.memory.Foretold →
      (s.trap? = none → s.ReadsOnce s₁ o) ∧ (s.trap? ≠ none → s.ReadsNot s₁) := by
  refine ⟨Console.honest, fun m hm p w signed => ⟨m.preview_value hm p w signed, fun r hr =>
    ⟨Memory.after_preview hr, Memory.deviceReads_of_preview hr⟩⟩,
    fun s s₁ a w signed p v h => Exec.commitLoad_of_previewLoad_ok h, ?_⟩
  intro s s₁ i o hf ho hm
  refine ⟨readsOnce_of_no_trap hf hm ho, fun ht => ?_⟩
  obtain ⟨t, ht⟩ := Option.ne_none_iff_exists'.mp ht
  exact readsNot_of_trap hf ho ht

/-- A machine with two bytes of input, each of which it adds to a register. The second sum
overflows. -/
def ofTerminal : Session Empty where
  machine := { (Machine.create {} : Machine Empty) with
    registers := { (Registers.cleared.setGeneral 1 0x7FFFFFFFFFFFFFBE).setGeneral 2 0xF0001000 with
      status := ⟨3, 0⟩ }
    memory := ⟨(ByteStore.zeros 0x8000).withProgram 0
      [InstructionWord.pack 1 1 1 0 2 0, InstructionWord.pack 1 1 1 0 2 0],
      (Memory.create {}).io.pushInput [0x41, 0x42]⟩
    state := .running }
  log := #[]

theorem ofTerminal_read_once :
    ∃ i o s₁ s₂, i.combination? = some o ∧
      ofTerminal.fetched? = some (i, s₁) ∧ ofTerminal.trap? = none ∧
      ofTerminal.ReadsOnce s₁ o ∧
      ofTerminal.cycle.2.fetched? = some (i, s₂) ∧ ofTerminal.cycle.2.trap? ≠ none ∧
      ofTerminal.cycle.2.ReadsNot s₂ ∧
      ofTerminal.cycle.2.cycle.2.machine.memory.io.console?.map (·.input) = some [0x42] := by
  have hd : Device.Honest Empty := fun d => nomatch d
  have hread := (foretold_and_read_once (δ := Empty)).2.2.2
  have hfirst : ofTerminal.trap? = none := by rfl
  have hsecond : ofTerminal.cycle.2.trap? ≠ none := by decide
  exact ⟨.memoryBinary .add .byte 1 (.displaced 2 0) ⟨false, false⟩, _, _, _, rfl, rfl, hfirst,
    (hread _ _ _ _ rfl rfl (Memory.foretold_of_honest hd _)).1 hfirst, rfl, hsecond,
    (hread _ _ _ _ (by rfl) rfl (Memory.foretold_of_honest hd _)).2 hsecond, by rfl⟩

end Session

end Processor64
