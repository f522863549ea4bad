import Processor64.Proofs.Ending

/-!
# Delivery and return

A trap that is delivered puts the status word to return to, its code and its information into
control registers and starts the handler of its code in privileged mode with all other status bits
clear. A handler that returns at once undoes it: after that one cycle the machine has the status
word it had before the trap, at the instruction to go on with, and its general registers, mappings
and memory are as they were (`delivered_and_returned`).

The first half is what a trapped instruction leaves alone (`spares_of_instructionAt_error`) and
what `takeTrap` writes; the second is one cycle of an instruction whose word lies in physical memory
(`cycle_returnFromTrap`).
-/

namespace Processor64

variable {δ : Type}

/-- A saved status word is read back as it was. -/
theorem StatusWord.ofWord_toWord (p : StatusWord) : ofWord p.toWord = p := by
  obtain ⟨status, address⟩ := p
  simp only [ofWord, toWord, mk.injEq]
  constructor
  · ext i hi
    simp only [BitVec.getElem_extractLsb', BitVec.getLsbD_append]
    simp [hi]
  · ext i hi
    simp only [BitVec.getElem_extractLsb', BitVec.getLsbD_append]
    simp [hi]

namespace Trap

/-- Where to go on after a trap of the instruction at `ia`. -/
def resumption (t : Trap) (ia : BitVec 52) : BitVec 52 :=
  if t.code = .software then ia + 4 else ia

/-- Where the handler of a trap starts. -/
def handler (t : Trap) (table : Word) : BitVec 52 :=
  BitVec.ofNat 52 (table.toNat + vectorStride * t.code.number)

theorem atStart_handler (t : Trap) (table : Word) :
    StatusWord.atStart (table + BitVec.ofNat 64 (vectorStride * t.code.number)) =
      ⟨1, t.handler table⟩ := by
  simp only [StatusWord.atStart, handler, StatusWord.mk.injEq, true_and]
  apply BitVec.eq_of_toNat_eq
  simp only [BitVec.extractLsb'_toNat, BitVec.toNat_add, BitVec.toNat_ofNat, Nat.shiftRight_zero]
  omega

/-- The outer words of the information are the halves of the address. -/
theorem toNat_address {t : Trap} {a : Word} (h : t.address = some a) :
    t.info3.toNat * 2 ^ 32 + t.info1.toNat = a.toNat := by
  have ha : t.info3 ++ t.info1 = a := by
    unfold address at h
    split at h
    all_goals first | exact Option.some.inj h | cases h
  rw [← ha, toNat_append_eq_add, Nat.shiftLeft_eq]

/-- A trap that was made for an address tells it in the same way. -/
theorem toNat_atAddress (c : TrapCode) (a : Word) (detail : Nat) :
    (atAddress c a detail).info3.toNat * 2 ^ 32 + (atAddress c a detail).info1.toNat =
      a.toNat := by
  rw [← Nat.shiftLeft_eq, ← toNat_append_eq_add, info_append_atAddress]

end Trap

namespace Registers

theorem control_setControl (s : Registers) (c d : ControlRegister) (v : Word) :
    (s.setControl c v).control d = if d = c then v else s.control d := by
  by_cases h : d = c
  · subst h
    simp [setControl, setControlCell, control, controlCell]
  · have hne : d.number ≠ c.number := by
      revert h
      cases c <;> cases d <;> decide
    rw [if_neg h]
    exact controlCell_setControl s c v hne

/-- The registers that tell a handler about its trap. -/
def withTrap (s : Registers) (t : Trap) (saved : StatusWord) : Registers :=
  let s := s.setControl .trapStatus saved.toWord
  let s := s.setControl .trapCode (BitVec.ofNat 64 t.code.number)
  let s := s.setControl .trapInfo1 (t.info1.setWidth 64)
  let s := s.setControl .trapInfo2 (t.info2.setWidth 64)
  s.setControl .trapInfo3 (t.info3.setWidth 64)

/-- The trap registers hold the trap. -/
theorem control_withTrap (s : Registers) (t : Trap) (saved : StatusWord) :
    (s.withTrap t saved).control .trapStatus = saved.toWord ∧
      (s.withTrap t saved).control .trapCode = BitVec.ofNat 64 t.code.number ∧
      (s.withTrap t saved).control .trapInfo1 = t.info1.setWidth 64 ∧
      (s.withTrap t saved).control .trapInfo2 = t.info2.setWidth 64 ∧
      (s.withTrap t saved).control .trapInfo3 = t.info3.setWidth 64 := by
  simp [withTrap, control_setControl]

end Registers

/-- The instruction word at an address. -/
def ByteStore.wordAt (s : ByteStore) (a : Nat) : InstructionWord :=
  BitVec.ofNat 32 (littleEndian (s.bytesAt a 4))

/-! ## What a trapped instruction leaves alone -/

/-- General registers, mappings, physical memory and the store of the I/O window are the same, and
all of memory where all devices are consoles. -/
structure Machine.Preserves (m n : Machine δ) : Prop where
  generals : n.registers.generals = m.registers.generals
  contents : n.tlb.contents = m.tlb.contents
  physical : n.memory.physical = m.memory.physical
  backing : n.memory.io.backing = m.memory.io.backing
  memory : (∀ d ∈ m.memory.io.devices, ∃ c, d = .console c) → n.memory = m.memory

theorem Machine.Preserves.congr {m n o : Machine δ} (h : m.Preserves n)
    (hgenerals : o.registers.generals = n.registers.generals) (htlb : o.tlb = n.tlb)
    (hmemory : o.memory = n.memory) : m.Preserves o where
  generals := hgenerals.trans h.generals
  contents := by rw [htlb, h.contents]
  physical := by rw [hmemory, h.physical]
  backing := by rw [hmemory, h.backing]
  memory hd := hmemory.trans (h.memory hd)

/-- All is kept but recency, the instruction register, the reservation, and other devices than
consoles. -/
structure Machine.Spares (m n : Machine δ) : Prop extends m.Keeps n, m.Preserves n where
  status : n.registers.status = m.registers.status
  handlerEntry : n.handlerEntry = m.handlerEntry

theorem Session.Touched.spares {s s' : Session δ} (h : s.Touched s') :
    s.machine.Spares s'.machine := by
  have hkeeps := h.keeps
  obtain ⟨_, _, _, _, ht, rfl⟩ := h
  exact {
    hkeeps with
    generals := rfl
    contents := ht
    backing := rfl
    memory := fun _ => rfl
    status := rfl
    handlerEntry := rfl }

variable [Device δ]

namespace Exec

variable {s s' : Session δ} {t : Trap} {a : Word} {word : InstructionWord} {ia : BitVec 52}

theorem spares_of_instructionAt_error (h : instructionAt ia s = .error t s') :
    s.machine.Spares s'.machine := by
  have hkeeps := keeps_of_instructionAt_error h
  rcases instructionAt_error h with h | ⟨word, s₁, hf, s₂, h₂, he⟩
  · exact h.spares
  · obtain ⟨_, _, -, hr, -, hs₁⟩ := fetch_ok hf
    have hrest := (h₂.trans (touched_of_execute_error he)).spares
    rw [hs₁] at hrest
    exact {
      hkeeps with
      generals := hrest.generals
      contents := hrest.contents.trans (Machine.contents_place _ _ _ _)
      backing := hrest.backing.trans (Memory.backing_read hr)
      memory := fun hd => (touched_of_instructionAt_error hd h).spares.memory hd
      status := hrest.status
      handlerEntry := hrest.handlerEntry }

/-! ## The return instruction -/

/-- The word in physical memory at an aligned address that is not translated can be fetched. -/
theorem fetch_physical (ht : s.machine.registers.status.translates = false)
    (ha : a.toNat % 4 = 0) (hio : a.inIoWindow = false)
    (hfits : a.toNat + 4 ≤ s.machine.memory.physical.size) :
    ∃ s₁, fetch a s = .ok (s.machine.memory.physical.wordAt a.toNat) s₁ ∧
      s₁.machine = s.machine := by
  have hbypass : s.machine.accessContext.bypasses a = true := by
    simp [AccessContext.bypasses, Machine.accessContext, ht]
  have hplace : s.machine.place a .word .execute = (.ok a, s.machine.tlb) := by
    simp [Machine.place, Width.isAligned, Width.bytes, ha, Tlb.translate, hbypass]
  have htranslate : translate a .word .execute s = .ok a (s.withTlb s.machine.tlb) :=
    translate_eq_ok.mpr ⟨by rw [hplace], by rw [hplace]⟩
  have hread : s.machine.memory.read a .word false =
      .ok ⟨Width.word.extend (s.machine.memory.physical.raw a.toNat .word) false,
        s.machine.memory, []⟩ := by
    rw [Memory.read_physical hio, ByteStore.read_of_le hfits]
    rfl
  have hmemory : readMemory a .word false (s.withTlb s.machine.tlb) =
      .ok (Width.word.extend (s.machine.memory.physical.raw a.toNat .word) false)
        ((s.withTlb s.machine.tlb).afterReply _) :=
    absorb_eq_ok.mpr ⟨_, hread, rfl, rfl⟩
  have hword : (Width.word.extend (s.machine.memory.physical.raw a.toNat .word) false).extractLsb'
      0 32 = s.machine.memory.physical.wordAt a.toNat := by
    apply BitVec.eq_of_toNat_eq
    simp only [Width.extend, Width.truncate, Width.bits, Width.bytes, ByteStore.raw,
      ByteStore.wordAt, Bool.false_eq_true, if_false, BitVec.extractLsb'_toNat,
      BitVec.toNat_setWidth, BitVec.toNat_ofNat, Nat.shiftRight_zero]
    omega
  rw [← hword]
  exact ⟨_, (bind_of_eq_ok htranslate).trans (bind_of_eq_ok hmemory), rfl⟩

/-- A return from a trap restores the saved status word. -/
theorem execute_returnFromTrap (hw : Instruction.ofWord? word = some .returnFromTrap)
    (hp : s.machine.registers.status.privileged = true) : execute word ia s =
      .ok (.restore (.ofWord (s.machine.registers.control .trapStatus))) s := by
  simp [execute_apply, hp, hw, Instruction.isLegal, perform, bind_of_eq_ok (control_apply _)]

end Exec

/-- An instruction that returns from a trap lies in physical memory at an aligned address. -/
structure Memory.ReturnsAt (m : Memory δ) (v : BitVec 52) : Prop where
  aligned : v.toNat % 4 = 0
  physical : Word.inIoWindow (v.setWidth 64) = false
  fits : v.toNat + 4 ≤ m.physical.size
  word : Instruction.ofWord? (m.physical.wordAt v.toNat) = some .returnFromTrap

namespace Session

variable {s : Session δ} {t : Trap}

theorem cycle_returnFromTrap (hp : s.machine.registers.status.privileged = true)
    (ht : s.machine.registers.status.translates = false)
    (hr : s.machine.memory.ReturnsAt s.machine.registers.status.address) :
    s.cycle.1 = none ∧ ∃ word counters, s.cycle.2.machine = { s.machine with
      registers := { s.machine.registers with
        status := .ofWord (s.machine.registers.control .trapStatus)
        instruction := word }
      counters := counters
      handlerEntry := none } := by
  have hia : (s.machine.registers.status.address.setWidth 64).toNat =
      s.machine.registers.status.address.toNat := by
    rw [BitVec.toNat_setWidth]
    omega
  obtain ⟨s₁, hf, hs₁⟩ := Exec.fetch_physical (s := s.begun) ht (by rw [hia]; exact hr.aligned)
    hr.physical (by rw [hia]; exact hr.fits)
  rw [hia] at hf
  let word := s.machine.memory.physical.wordAt s.machine.registers.status.address.toNat
  let s₂ := s₁.withRegisters { s₁.machine.registers with instruction := word }
  have hs₂ : s₂.machine = { s.begun.machine with
      registers := { s.machine.registers with instruction := word } } := by
    rw [machine_withRegisters, hs₁]
    rfl
  have he : Exec.execute word s.machine.registers.status.address s₂ =
      .ok (.restore (.ofWord (s.machine.registers.control .trapStatus))) s₂ := by
    rw [Exec.execute_returnFromTrap hr.word (by rw [hs₂]; exact hp), hs₂]
    rfl
  have hi : Exec.instructionAt s.machine.registers.status.address s.begun =
      .ok (.restore (.ofWord (s.machine.registers.control .trapStatus))) (s₂.count _) :=
    (Exec.bind_of_eq_ok hf).trans <| (Exec.bind_of_eq_ok (Exec.mapRegisters_apply _)).trans <|
      (Exec.bind_of_eq_ok he).trans (Exec.bind_of_eq_ok (Exec.count_apply _))
  rw [(cycle_of_ok hi).2, retire_fst, machine_retire, machine_count, hs₂]
  exact ⟨rfl, word, _, rfl⟩

/-! ## Delivery -/

/-- The status word to return to after a trap of the next cycle. -/
def resumptionStatus (s : Session δ) (t : Trap) : StatusWord :=
  s.machine.registers.status.withAddress (t.resumption s.machine.registers.status.address)

/-- What the handler finds of a trap of the cycle that began in `s`. -/
structure Delivered (s : Session δ) (t : Trap) (stop : Option StopReason) (s' : Session δ) :
    Prop where
  stop : stop = none
  state : s'.machine.state = .running
  status : s'.machine.registers.status =
    ⟨1, t.handler (s.machine.registers.control .vectorAddress)⟩
  code : s'.machine.registers.control .trapCode = BitVec.ofNat 64 t.code.number
  info1 : s'.machine.registers.control .trapInfo1 = t.info1.setWidth 64
  info2 : s'.machine.registers.control .trapInfo2 = t.info2.setWidth 64
  info3 : s'.machine.registers.control .trapInfo3 = t.info3.setWidth 64
  address : ∀ a, t.address = some a →
    (s'.machine.registers.control .trapInfo3).toNat * 2 ^ 32 +
      (s'.machine.registers.control .trapInfo1).toNat = a.toNat
  /-- The address that the trap was made for. -/
  located : ∀ c a detail, t = .atAddress c a detail →
    (s'.machine.registers.control .trapInfo3).toNat * 2 ^ 32 +
      (s'.machine.registers.control .trapInfo1).toNat = a.toNat
  saved : s'.machine.registers.control .trapStatus = (s.resumptionStatus t).toWord
  preserves : s.machine.Preserves s'.machine

/-- What is as it was before a trap of the cycle that began in `s`, once the handler has
returned. -/
structure Returned (s : Session δ) (t : Trap) (stop : Option StopReason) (s' : Session δ) :
    Prop where
  stop : stop = none
  state : s'.machine.state = .running
  status : s'.machine.registers.status = s.resumptionStatus t
  preserves : s.machine.Preserves s'.machine

omit [Device δ] in
theorem takeTrap_of_vector (hp : s.machine.settings.trapPolicy = .vector)
    (hv : s.machine.registers.control .vectorAddress ≠ 0) (he : s.machine.handlerEntry = none)
    (t : Trap) (ia : BitVec 52) :
    (s.takeTrap t ia).1 = none ∧
      ∃ counters lastTrap entry, (s.takeTrap t ia).2.machine = { s.machine with
        registers := { s.machine.registers.dropReservation.withTrap t
            (s.machine.registers.status.withAddress (t.resumption ia)) with
          status := ⟨1, t.handler (s.machine.registers.control .vectorAddress)⟩ }
        counters := counters
        lastTrap := lastTrap
        handlerEntry := entry } := by
  unfold takeTrap
  dsimp only
  rw [if_pos ⟨hp, hv⟩, he, ← t.atStart_handler]
  exact ⟨rfl, _, _, _, rfl⟩

/-- A trap with a vector is delivered to its handler. -/
theorem delivered_of_trap (hstate : s.machine.state = .running)
    (hp : s.machine.settings.trapPolicy = .vector)
    (hv : s.machine.registers.control .vectorAddress ≠ 0) (he : s.machine.handlerEntry = none)
    (ht : s.trap? = some t) : s.Delivered t s.cycle.1 s.cycle.2 := by
  obtain ⟨s₁, hi, hc⟩ := cycle_of_trap ht
  have hspares := Exec.spares_of_instructionAt_error hi
  have hcontrol : ∀ c, s₁.machine.registers.control c = s.machine.registers.control c := by
    intro c
    simp only [Registers.control, Registers.controlCell, hspares.controls]
    rfl
  have hstatus : s₁.machine.registers.status = s.machine.registers.status := hspares.status
  obtain ⟨hstop, _, _, _, hm⟩ := takeTrap_of_vector (by rw [hspares.settings]; exact hp)
    (by rw [hcontrol]; exact hv) (hspares.handlerEntry.trans he) t
    s.machine.registers.status.address
  rw [hcontrol, hstatus] at hm
  obtain ⟨hsaved, hcode, hfirst, hsecond, hthird⟩ := Registers.control_withTrap
    s₁.machine.registers.dropReservation t (s.resumptionStatus t)
  have hinfo1 := (congrArg (·.registers.control .trapInfo1) hm).trans hfirst
  have hinfo3 := (congrArg (·.registers.control .trapInfo3) hm).trans hthird
  have haddress : (s.cycle.2.machine.registers.control .trapInfo3).toNat * 2 ^ 32 +
      (s.cycle.2.machine.registers.control .trapInfo1).toNat =
      t.info3.toNat * 2 ^ 32 + t.info1.toNat := by
    rw [hc, hinfo1, hinfo3, BitVec.toNat_setWidth_of_le (by omega),
      BitVec.toNat_setWidth_of_le (by omega)]
  have hpreserves : s.machine.Preserves s₁.machine := ⟨hspares.generals, hspares.contents,
    hspares.physical, hspares.backing, hspares.memory⟩
  rw [hc] at haddress ⊢
  exact {
    stop := hstop
    state := (congrArg (·.state) hm).trans (hspares.state.trans hstate)
    status := congrArg (·.registers.status) hm
    code := (congrArg (·.registers.control .trapCode) hm).trans hcode
    info1 := hinfo1
    info2 := (congrArg (·.registers.control .trapInfo2) hm).trans hsecond
    info3 := hinfo3
    address := fun a ha => haddress.trans (Trap.toNat_address ha)
    located := fun c a detail ht => haddress.trans (ht ▸ Trap.toNat_atAddress c a detail)
    saved := (congrArg (·.registers.control .trapStatus) hm).trans hsaved
    preserves := hpreserves.congr (congrArg (·.registers.generals) hm) (congrArg (·.tlb) hm)
      (congrArg (·.memory) hm) }

/-- A handler that returns resumes where the trap says. -/
theorem returned_of_delivered {stop : Option StopReason} {s' : Session δ}
    (h : s.Delivered t stop s')
    (hr : s.machine.memory.ReturnsAt (t.handler (s.machine.registers.control .vectorAddress))) :
    s.Returned t s'.cycle.1 s'.cycle.2 := by
  have hr' : s'.machine.memory.ReturnsAt s'.machine.registers.status.address := by
    rw [h.status]
    exact ⟨hr.aligned, hr.physical, by rw [h.preserves.physical]; exact hr.fits,
      by rw [h.preserves.physical]; exact hr.word⟩
  have hprivileged : s'.machine.registers.status.privileged = true := by
    rw [h.status]
    simp [StatusWord.privileged]
  have htranslates : s'.machine.registers.status.translates = false := by
    rw [h.status]
    simp [StatusWord.translates]
  obtain ⟨hstop, _, _, hm⟩ := cycle_returnFromTrap hprivileged htranslates hr'
  exact {
    stop := hstop
    state := (congrArg (·.state) hm).trans h.state
    status := by
      rw [hm]
      exact (congrArg StatusWord.ofWord h.saved).trans (StatusWord.ofWord_toWord _)
    preserves := h.preserves.congr (congrArg (·.registers.generals) hm) (congrArg (·.tlb) hm)
      (congrArg (·.memory) hm) }

/-- A running machine delivers a trap to its handler, and if that returns at once, is back where it
was. -/
theorem delivered_and_returned (hstate : s.machine.state = .running)
    (hp : s.machine.settings.trapPolicy = .vector)
    (hv : s.machine.registers.control .vectorAddress ≠ 0) (he : s.machine.handlerEntry = none)
    (ht : s.trap? = some t) :
    s.Delivered t s.cycle.1 s.cycle.2 ∧
      (s.machine.memory.ReturnsAt (t.handler (s.machine.registers.control .vectorAddress)) →
        s.Returned t s.cycle.2.cycle.1 s.cycle.2.cycle.2) := by
  have hdelivered := delivered_of_trap hstate hp hv he ht
  exact ⟨hdelivered, fun hr => returned_of_delivered hdelivered hr⟩

/-- A machine in user mode, with reserved status bits, that loads a word far beyond its memory. The
handler of the trap returns at once. -/
def ofStray : Session Empty where
  machine := {
    settings := { trapPolicy := .vector }
    registers := { Registers.cleared.setControl .vectorAddress 0x1000 with
      generals := (Vector.replicate 16 0).set 1 0x1234567800
      status := ⟨0xFF0, 0⟩ }
    tlb := .create 2
    memory := ⟨((ByteStore.zeros 0x8000).withProgram 0
      [InstructionWord.pack 1 8 2 0 1 0x4000]).withProgram 0x1060
      [InstructionWord.pack 3 7 0 0 0 0], .create 0⟩
    state := .running
    lastTrap := none
    counters := {}
    handlerEntry := none }
  log := #[]

theorem ofStray_returns : ofStray.trap? = some (.outsidePhysical 0x1234567800 .word) ∧
    ofStray.Delivered (.outsidePhysical 0x1234567800 .word) ofStray.cycle.1 ofStray.cycle.2 ∧
    ofStray.Returned (.outsidePhysical 0x1234567800 .word) ofStray.cycle.2.cycle.1
      ofStray.cycle.2.cycle.2 ∧
    ofStray.cycle.2.cycle.2.machine.registers.status = ⟨0xFF0, 0⟩ :=
  have ht : ofStray.trap? = some (.outsidePhysical 0x1234567800 .word) := by rfl
  have hr : ofStray.machine.memory.ReturnsAt (Trap.handler (.outsidePhysical 0x1234567800 .word)
      (ofStray.machine.registers.control .vectorAddress)) :=
    ⟨by decide, by decide, by decide, by decide⟩
  have h := delivered_and_returned (s := ofStray) rfl rfl (by decide) rfl ht
  ⟨ht, h.1, h.2 hr, (h.2 hr).status⟩

end Session

end Processor64
