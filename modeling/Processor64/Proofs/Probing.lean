import Processor64.Proofs.Decision
import Processor64.Proofs.Operand
import Processor64.Proofs.Questions

/-!
# What a probe foretells

A probe asks the translation buffer whether an access would be translated, and asks nothing of the
memory. So it foretells of an access of one byte at its address whether that is refused for its
mapping, and if something lies at the physical address, whether it succeeds
(`probe_foretells_translation`). An access to an address where nothing lies is granted, and traps
(`ofNowhere_foretold_in_vain`).
-/

namespace Processor64

variable {δ : Type}

namespace InstructionWord

/-- A probe for accesses of a kind. -/
structure Probes (w : InstructionWord) (k : AccessKind) : Prop where
  group : w.group = 3
  family : w.family = 3
  kind : w.qualifier.toNat % 4 = k.code

/-- A load or a store of one byte. -/
inductive AccessesByte (w : InstructionWord) : AccessKind → Prop where
  | load (group : w.group = 1) (family : w.family = 8) (width : w.widthCode = 0) :
    w.AccessesByte .read
  | store (group : w.group = 1) (family : w.family = 9) (width : w.widthCode = 0) :
    w.AccessesByte .write

variable {w : InstructionWord} {k : AccessKind}

theorem Probes.ofWord? (h : w.Probes k) :
    Instruction.ofWord? w = some (.probe (some k) w.r w.b) := by
  have hk : AccessKind.ofCode? k.code = some k := by cases k <;> rfl
  simp [Instruction.ofWord?, Instruction.ofSystemWord?, h.group, h.family, h.kind, hk]

theorem width_eq_byte (h : w.widthCode = 0) : w.width = .byte := by
  rw [width, h]
  rfl

theorem ofWord?_load (hg : w.group = 1) (hf : w.family = 8) : Instruction.ofWord? w =
    some (.load (w.qualifier.getLsbD 1) w.width w.r w.memoryOperand) := by
  simp [Instruction.ofWord?, Instruction.ofMemoryWord?, hg, hf]

theorem ofWord?_store (hg : w.group = 1) (hf : w.family = 9) : Instruction.ofWord? w =
    some (.store w.width w.r w.memoryOperand) := by
  simp [Instruction.ofWord?, Instruction.ofMemoryWord?, hg, hf]

end InstructionWord

/-! ## Refusals -/

/-- The codes of an access that is refused for the mapping of its address. -/
def TrapCode.ofMapping : List TrapCode := [tlbAccess, protection]

/-- The codes of an access that finds nothing at its physical address. -/
def TrapCode.ofNowhere : List TrapCode := [physicalMemoryAddress, ioMemoryAddress]

theorem TrapCode.not_mem_ofNowhere {c : TrapCode} (h : c ∈ ofMapping) : c ∉ ofNowhere := by
  revert h
  cases c <;> decide

namespace Machine

variable {m : Machine δ} {a p : Word} {k : AccessKind} {r : Refusal}

theorem place_byte_fst (m : Machine δ) (a : Word) (k : AccessKind) :
    (m.place a .byte k).1 = (m.tlb.translate a k m.accessContext).1 := by
  have haligned : Width.byte.isAligned a = true := by
    simp [Width.isAligned, Width.bytes, Nat.mod_one]
  rw [place, if_pos haligned]

/-- A probe grants what has a physical address, which is where the address is resolved to. -/
theorem probe_of_location (h : m.location a .byte k = .ok p) :
    m.tlb.probe a k m.accessContext = true ∧
      (m.tlb.resolve a m.accessContext).1 = .ok p := by
  have hplace := m.place_fst a .byte k
  rw [place_byte_fst, h] at hplace
  exact ⟨Tlb.probe_iff_translate.mpr ⟨p, hplace⟩,
    (m.tlb.agrees a k m.accessContext).resolve p hplace⟩

/-- A probe denies what is refused for its mapping. -/
theorem probe_of_refusal (h : m.location a .byte k = .error r) :
    m.tlb.probe a k m.accessContext = false ∧ (r.trap .byte k).code ∈ TrapCode.ofMapping := by
  have hplace := m.place_fst a .byte k
  rw [place_byte_fst, h] at hplace
  refine ⟨?_, ?_⟩
  · rw [← Bool.not_eq_true, Tlb.probe_iff_translate, hplace]
    simp
  · rw [location, if_neg (by simp [Width.bytes, Nat.mod_one])] at h
    split at h
    · split at h
      · cases h
        simp [Refusal.trap, TrapCode.ofMapping, Trap.unmapped, Trap.atAddress]
      · split at h <;> cases h
        simp [Refusal.trap, TrapCode.ofMapping, Trap.denied, Trap.atAddress]
    · cases h

end Machine

theorem Memory.code_of_verdict [Device δ] {m : Memory δ} {p : Word} {w : Width} {r : Refusal}
    (h : m.verdict p w = .error r) (k : AccessKind) : (r.trap w k).code ∈ TrapCode.ofNowhere := by
  unfold verdict at h
  split at h <;> split at h <;> cases h <;>
    simp [Refusal.trap, TrapCode.ofNowhere, Trap.unclaimedIo, Trap.outsidePhysical, Trap.atAddress]

/-! ## The probe and the access -/

variable [Device δ]

namespace Exec

variable {s : Session δ} {word : InstructionWord} {ia : BitVec 52} {k : AccessKind} {w : Width}
  {r b : Register} {x : MemoryOperand}

theorem execute_probe (hi : Instruction.ofWord? word = some (.probe (some k) r b)) :
    execute word ia s = .ok .next (s.withRegisters (s.machine.registers.setGeneral r
      (flag (s.machine.tlb.probe (s.machine.registers.general b) k s.machine.accessContext)))) := by
  rw [execute_of_unprivileged hi rfl rfl]
  rfl

theorem execute_store (hi : Instruction.ofWord? word = some (.store w r x)) :
    execute word ia s = (do
      store (x.address s.machine.registers) w (s.machine.registers.general r)
      return .next : Exec δ Flow) s := by
  have hexecute : execute word ia s = perform word ia (.store w r x) s :=
    execute_of_unprivileged hi rfl rfl
  rw [hexecute]
  exact (bind_of_eq_ok (operandAddress_apply x)).trans (bind_of_eq_ok (general_apply r))

end Exec

namespace Session

variable {s : Session δ} {probe access : InstructionWord} {ia : BitVec 52} {k : AccessKind}

/-- What obeying a word leaves in its register R. -/
def outcome (s : Session δ) (word : InstructionWord) (ia : BitVec 52) : Word :=
  (s.obey word ia).2.machine.registers.general word.r

theorem obeyTrap?_probe (h : probe.Probes k) (s : Session δ) (ia : BitVec 52) :
    s.obeyTrap? probe ia = none := by
  rw [obeyTrap?, Exec.execute_probe h.ofWord?]

theorem outcome_probe (h : probe.Probes k) (hr : probe.r ≠ 0) (s : Session δ) (ia : BitVec 52) :
    s.outcome probe ia = Exec.flag (s.machine.tlb.probe (s.machine.registers.general probe.b) k
      s.machine.accessContext) := by
  rw [outcome, obey, Exec.execute_probe h.ofWord?]
  dsimp only
  rw [machine_retire]
  exact Registers.general_setGeneral_self hr _

/-- The trap of an access of one byte is the trap of its verdict. -/
theorem obeyTrap?_access (h : access.AccessesByte k) (s : Session δ) (ia : BitVec 52) :
    s.obeyTrap? access ia =
      match s.machine.verdict (access.memoryOperand.address s.machine.registers) .byte k with
      | .error r => some (r.trap .byte k)
      | .ok _ => none := by
  have hverdict : (s.withInstruction access).machine.verdict (access.memoryOperand.address
      (s.withInstruction access).machine.registers) .byte k =
      s.machine.verdict (access.memoryOperand.address s.machine.registers) .byte k := by
    rfl
  rw [← hverdict, obeyTrap?]
  generalize s.withInstruction access = s
  cases h with
  | load hg hf hw =>
    have hends := Exec.loadEnds_verdict s (access.memoryOperand.address s.machine.registers) .byte
      (access.qualifier.getLsbD 1)
    rw [Exec.execute_load (InstructionWord.ofWord?_load hg hf), InstructionWord.width_eq_byte hw]
    rcases hv : s.machine.verdict (access.memoryOperand.address s.machine.registers) .byte .read
      with r | p <;> rw [hv] at hends
    · obtain ⟨-, tlb, -, he⟩ := hends
      have hload : Exec.load (access.memoryOperand.address s.machine.registers) .byte
          (access.qualifier.getLsbD 1) s = .error (r.trap .byte .read) (s.withTlb tlb) :=
        Exec.bind_eq_error.mpr (.inl he)
      rw [Exec.bind_eq_error.mpr (.inl hload)]
    · obtain ⟨reply, -, tlb, -, he⟩ := hends
      have hload : Exec.load (access.memoryOperand.address s.machine.registers) .byte
          (access.qualifier.getLsbD 1) s = .ok reply.value _ := Exec.bind_of_eq_ok he
      rw [Exec.bind_of_eq_ok hload]
      rfl
  | store hg hf hw =>
    have hends := Exec.storeEnds_verdict s (access.memoryOperand.address s.machine.registers)
      (s.machine.registers.general access.r) .byte
    rw [Exec.execute_store (InstructionWord.ofWord?_store hg hf), InstructionWord.width_eq_byte hw]
    rcases hv : s.machine.verdict (access.memoryOperand.address s.machine.registers) .byte .write
      with r | p <;> rw [hv] at hends
    · obtain ⟨-, tlb, -, he⟩ := hends
      rw [Exec.bind_eq_error.mpr (.inl he)]
    · obtain ⟨reply, -, tlb, -, he⟩ := hends
      rw [Exec.bind_of_eq_ok he]
      rfl

/-- Something lies at the physical address that an address is resolved to, if it is. -/
def Backed (s : Session δ) (a : Word) : Prop :=
  ∀ p, (s.machine.tlb.resolve a s.machine.accessContext).1 = .ok p →
    ∃ q, s.machine.memory.verdict p .byte = .ok q

/-- What the answer of a probe foretells of an access. -/
structure Foretells (s : Session δ) (probe access : InstructionWord) (ia : BitVec 52) : Prop where
  granted : s.outcome probe ia = 1 ↔
    ∀ t, s.obeyTrap? access ia = some t → t.code ∈ TrapCode.ofNowhere
  denied : s.outcome probe ia = 0 ↔
    ∃ t, s.obeyTrap? access ia = some t ∧ t.code ∈ TrapCode.ofMapping
  backed : s.Backed (s.machine.registers.general probe.b) →
    (s.outcome probe ia = 1 ↔ s.obeyTrap? access ia = none)

/-- A probe completes, and foretells of a load or store of one byte at its address whether it would
pass translation. -/
theorem probe_foretells_translation (hp : probe.Probes k) (ha : access.AccessesByte k)
    (haddress : access.memoryOperand.address s.machine.registers =
      s.machine.registers.general probe.b) (ia : BitVec 52) :
    s.obeyTrap? probe ia = none ∧ (probe.r ≠ 0 → s.Foretells probe access ia) := by
  refine ⟨obeyTrap?_probe hp s ia, fun hr => ?_⟩
  have houtcome := outcome_probe hp hr s ia
  have htrap := obeyTrap?_access ha s ia
  rw [haddress, Machine.verdict] at htrap
  rcases hl : s.machine.location (s.machine.registers.general probe.b) .byte k with r | p
  · obtain ⟨hprobe, hcode⟩ := Machine.probe_of_refusal hl
    have hne := TrapCode.not_mem_ofNowhere hcode
    rw [hl] at htrap
    rw [hprobe] at houtcome
    constructor <;> simp [houtcome, htrap, Exec.flag, hcode, hne]
  · obtain ⟨hprobe, hresolve⟩ := Machine.probe_of_location hl
    rw [hl] at htrap
    rw [hprobe] at houtcome
    rcases hv : s.machine.memory.verdict p .byte with r | q
    · have hcode := Memory.code_of_verdict hv k
      have hne : (r.trap .byte k).code ∉ TrapCode.ofMapping :=
        fun h => TrapCode.not_mem_ofNowhere h hcode
      -- nothing lies where the address is resolved to
      have hbacked : ¬ s.Backed (s.machine.registers.general probe.b) := by
        intro h
        obtain ⟨q, hq⟩ := h p hresolve
        cases hv.symm.trans hq
      simp only [hv] at htrap
      constructor <;> simp [houtcome, htrap, Exec.flag, hcode, hne, hbacked]
    · simp only [hv] at htrap
      constructor <;> simp [houtcome, htrap, Exec.flag]

/-- A machine with an address in register 2. -/
def ofProbed (status : StatusWord) (tlb : Tlb) (a : Word) : Session Empty where
  machine := {
    settings := {}
    registers := { Registers.cleared.setGeneral 2 a with status := status }
    tlb := tlb
    memory := ⟨.zeros 0x8000, .create 0⟩
    state := .running
    lastTrap := none
    counters := {}
    handlerEntry := none }
  log := #[]

/-- A machine that translates, and may read and not write at its address. -/
def ofReadOnly : Session Empty :=
  ofProbed ⟨5, 0⟩ ((Tlb.create 2).insert ⟨0x10000, 1, 1, 0⟩).2 0x40000010

/-- A read is granted and loads, and a write is denied and traps. -/
theorem ofReadOnly_foretold :
    (ofReadOnly.outcome (.pack 3 3 1 0 2 0) 0 = 1 ∧
      ofReadOnly.obeyTrap? (.pack 1 8 3 0 2 0) 0 = none ∧
      ofReadOnly.Foretells (.pack 3 3 1 0 2 0) (.pack 1 8 3 0 2 0) 0) ∧
    ofReadOnly.outcome (.pack 3 3 1 1 2 0) 0 = 0 ∧
      ofReadOnly.obeyTrap? (.pack 1 9 3 0 2 0) 0 = some (.denied 0x40000010 .write) ∧
      ofReadOnly.Foretells (.pack 3 3 1 1 2 0) (.pack 1 9 3 0 2 0) 0 := by
  have hload : InstructionWord.AccessesByte (.pack 1 8 3 0 2 0) .read := .load rfl rfl rfl
  have hstore : InstructionWord.AccessesByte (.pack 1 9 3 0 2 0) .write := .store rfl rfl rfl
  exact ⟨⟨rfl, rfl, (probe_foretells_translation ⟨rfl, rfl, rfl⟩ hload rfl 0).2 (by decide)⟩,
    rfl, rfl, (probe_foretells_translation ⟨rfl, rfl, rfl⟩ hstore rfl 0).2 (by decide)⟩

/-- A machine that does not translate, with an address beyond its memory. -/
def ofNowhere : Session Empty := ofProbed ⟨1, 0⟩ (.create 2) 0x100000000

/-- A read that traps is granted. -/
theorem ofNowhere_foretold_in_vain :
    InstructionWord.Probes (.pack 3 3 1 0 2 0) .read ∧
    InstructionWord.AccessesByte (.pack 1 8 3 0 2 0) .read ∧
    (InstructionWord.memoryOperand (.pack 1 8 3 0 2 0)).address ofNowhere.machine.registers =
      ofNowhere.machine.registers.general (InstructionWord.b (.pack 3 3 1 0 2 0)) ∧
    ¬ (ofNowhere.outcome (.pack 3 3 1 0 2 0) 0 = 1 ↔
      ofNowhere.obeyTrap? (.pack 1 8 3 0 2 0) 0 = none) := by
  have houtcome : ofNowhere.outcome (.pack 3 3 1 0 2 0) 0 = 1 := by rfl
  have htrap : ofNowhere.obeyTrap? (.pack 1 8 3 0 2 0) 0 =
      some (.outsidePhysical 0x100000000 .byte) := by rfl
  exact ⟨⟨rfl, rfl, rfl⟩, .load rfl rfl rfl, rfl, fun h => nomatch htrap.symm.trans (h.mp houtcome)⟩

end Session

end Processor64
