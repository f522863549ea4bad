import Processor64.Proofs.Effect

/-!
# The decision of an access

Whether an access is made is decided before anything is read or written: by its alignment, then, if
its address is translated, by the mapping of its page, and last by what lies at its physical address
(`Machine.verdict`). The verdict is stated in numbers that do not wrap and asks no other operation
of the machine.

A refused load or store ends with the trap of its refusal, whose address is the address refused, and
leaves everything but the recency of the translation buffer. One that is admitted is made at the
physical address of the verdict (`access_decided`).
-/

namespace Processor64

variable {δ α : Type}

/-- Why an access is refused, with the address that it is refused for. -/
inductive Refusal where
  | misaligned (a : Word)
  | unmapped (a : Word)
  | denied (a : Word)
  | unclaimedIo (p : Word)
  | outsidePhysical (p : Word)
  deriving DecidableEq, Repr

namespace Refusal

def address : Refusal → Word
  | misaligned a | unmapped a | denied a | unclaimedIo a | outsidePhysical a => a

def trap (w : Width) (k : AccessKind) : Refusal → Trap
  | misaligned a => .misaligned a w
  | unmapped a => .unmapped a k
  | denied a => .denied a k
  | unclaimedIo p => .unclaimedIo p w
  | outsidePhysical p => .outsidePhysical p w

end Refusal

/-- The range of the device has the `n` bytes at `p`. -/
def Device.Contains [Device δ] (d : δ) (p n : Nat) : Prop :=
  (base d).toNat ≤ p ∧ p + n ≤ (base d).toNat + (size d).toNat

instance [Device δ] (d : δ) (p n : Nat) : Decidable (Device.Contains d p n) :=
  inferInstanceAs (Decidable (_ ∧ _))

/-- What the memory lets through. -/
def Memory.verdict [Device δ] (m : Memory δ) (p : Word) (w : Width) : Except Refusal Word :=
  if p.inIoWindow = true then
    if (∀ d ∈ m.io.devices, ¬ Device.Contains d p.toNat w.bytes) ∧
        m.io.backing.size < p.toNat - ioStart + w.bytes then .error (.unclaimedIo p)
    else .ok p
  else if m.physical.size < p.toNat + w.bytes then .error (.outsidePhysical p)
  else .ok p

namespace Machine

/-- The mapping of the first valid slot that holds the page of an address. -/
def entry? (m : Machine δ) (a : Word) : Option Mapping :=
  (m.tlb.slots.find? fun s => s.valid && s.mapping.page == a.page).map (·.mapping)

/-- The mapping forbids an access: it lacks the right of its kind, or in user mode the user right or
the protection id of the process. -/
def Forbids (m : Machine δ) (x : Mapping) (k : AccessKind) : Prop :=
  x.allows k = false ∨
    m.registers.status.privileged = false ∧
      (x.userAccessible = false ∨
        x.protectionId ≠ 0 ∧
          ∀ c ∈ [.protectionId0, .protectionId1, .protectionId2, .protectionId3],
            x.protectionId ≠ (m.registers.control c).setWidth 32)

instance (m : Machine δ) (x : Mapping) (k : AccessKind) : Decidable (m.Forbids x k) :=
  inferInstanceAs (Decidable (_ ∨ _))

/-- The physical address of an access, as far as alignment and translation decide. -/
def location (m : Machine δ) (a : Word) (w : Width) (k : AccessKind) : Except Refusal Word :=
  if a.toNat % w.bytes ≠ 0 then .error (.misaligned a)
  else if m.registers.status.translates = true ∧ a.inIoWindow = false then
    match m.entry? a with
    | none => .error (.unmapped a)
    | some x =>
      if m.Forbids x k then .error (.denied a)
      else .ok (BitVec.ofNat 64 (x.frame.toNat * pageSize + a.toNat % pageSize))
  else .ok a

/-- The refusal of an access, or the physical address where it is made. -/
def verdict [Device δ] (m : Machine δ) (a : Word) (w : Width) (k : AccessKind) :
    Except Refusal Word :=
  match m.location a w k with
  | .error r => .error r
  | .ok p => m.memory.verdict p w

end Machine

theorem Trap.address_atAddress (a : Word) (detail : Nat) {c : TrapCode}
    (hc : c ∈ [.alignment, .physicalMemoryAddress, .ioMemoryAddress, .protection, .tlbAccess]) :
    (atAddress c a detail).address = some a := by
  have ha := info_append_atAddress c a detail
  simp only [List.mem_cons, List.not_mem_nil, or_false] at hc
  rcases hc with rfl | rfl | rfl | rfl | rfl <;> exact congrArg some ha

/-- The trap of a refusal tells the address refused. -/
theorem Refusal.address_trap (r : Refusal) (w : Width) (k : AccessKind) :
    (r.trap w k).address = some r.address := by
  cases r <;> exact Trap.address_atAddress _ _ (by decide)

/-! ## The I/O window and physical memory -/

theorem Device.covers_iff [Device δ] (d : δ) {p : Word} {n : Nat} (hn : p.toNat + n < 2 ^ 33) :
    Device.covers d p n = true ↔ Device.Contains d p.toNat n := by
  have hsum : saturatingSum p.toNat n = p.toNat + n := by
    rw [saturatingSum, Nat.min_eq_left]
    simp only [UInt64.size]
    omega
  have hle : p.toNat + n ≤ saturatingSum (base d).toNat (size d).toNat ↔
      p.toNat + n ≤ (base d).toNat + (size d).toNat := by
    simp only [saturatingSum, UInt64.size]
    omega
  simp only [covers, rangeCovers, Contains, BitVec.ule_eq_decide, Bool.and_eq_true,
    decide_eq_true_eq, hsum, hle]

namespace IoWindow

variable [Device δ] {io : IoWindow δ} {p : Word} {w : Width}

theorem target?_eq_none_iff (hp : p.inIoWindow = true) :
    io.target? p w = none ↔ (∀ d ∈ io.devices, ¬ Device.Contains d p.toNat w.bytes) ∧
      io.backing.size < p.toNat - ioStart + w.bytes := by
  have hlt : p.toNat + w.bytes < 2 ^ 33 := Memory.lt_of_inIoWindow hp
  have hstart : ioStart ≤ p.toNat := by
    simp only [Word.inIoWindow, Bool.and_eq_true, decide_eq_true_eq] at hp
    exact hp.1
  have hdevices : io.devices.findFinIdx? (Device.covers · p w.bytes) = none ↔
      ∀ d ∈ io.devices, ¬ Device.Contains d p.toNat w.bytes := by
    simp only [List.findFinIdx?_eq_none_iff, Device.covers_iff _ hlt]
  have hbacks : io.backs p w.bytes = false ↔ io.backing.size < p.toNat - ioStart + w.bytes := by
    simp [backs, ByteStore.covers, hstart]
  unfold target?
  rcases hf : io.devices.findFinIdx? (Device.covers · p w.bytes) with _ | i
  · rcases hb : io.backs p w.bytes with _ | _
    · simp [← hdevices, hf, ← hbacks, hb]
    · simp [← hbacks, hb]
  · simp [← hdevices, hf]

end IoWindow

/-- An access ends as the verdict about it says. -/
def Decides (d : Except Refusal Word) (w : Width) (k : AccessKind) (x : Except Trap α) : Prop :=
  match d with
  | .error r => x = .error (r.trap w k)
  | .ok _ => ∃ v, x = .ok v

namespace Memory

variable [Device δ] {m : Memory δ} {p : Word} {w : Width}

theorem verdict_io (hp : p.inIoWindow = true) : m.verdict p w =
    if m.io.target? p w = none then .error (.unclaimedIo p) else .ok p := by
  simp only [verdict, hp, if_true, IoWindow.target?_eq_none_iff hp]

theorem verdict_physical (hp : p.inIoWindow = false) : m.verdict p w =
    if m.physical.covers p.toNat w.bytes then .ok p else .error (.outsidePhysical p) := by
  by_cases hc : p.toNat + w.bytes ≤ m.physical.size
  · simp [verdict, hp, ByteStore.covers, hc]
  · simp [verdict, hp, ByteStore.covers, hc, Nat.lt_of_not_le hc]

theorem eq_of_verdict {q : Word} (h : m.verdict p w = .ok q) : q = p := by
  rcases hp : p.inIoWindow
  · rw [verdict_physical hp] at h
    split at h <;> simp_all
  · rw [verdict_io hp] at h
    split at h <;> simp_all

theorem decides_read (m : Memory δ) (p : Word) (w : Width) (signed : Bool) (k : AccessKind) :
    Decides (m.verdict p w) w k (m.read p w signed) := by
  rcases hp : p.inIoWindow
  · rw [read_physical hp, verdict_physical hp, ByteStore.read]
    split
    · exact ⟨_, rfl⟩
    · rfl
  · rw [read_io hp, verdict_io hp, IoWindow.read]
    rcases m.io.target? p w with _ | (i | start)
    · rfl
    · exact ⟨_, rfl⟩
    · exact ⟨_, rfl⟩

theorem decides_preview (m : Memory δ) (p : Word) (w : Width) (signed : Bool)
    (k : AccessKind) : Decides (m.verdict p w) w k (m.preview p w signed) := by
  rcases hp : p.inIoWindow
  · rw [preview_physical hp, ← read_physical hp]
    exact decides_read m p w signed k
  · rw [preview_io hp, verdict_io hp, IoWindow.preview]
    rcases m.io.target? p w with _ | (i | start)
    · rfl
    · exact ⟨_, rfl⟩
    · exact ⟨_, rfl⟩

theorem decides_write (m : Memory δ) (p v : Word) (w : Width) (k : AccessKind) :
    Decides (m.verdict p w) w k (m.write p w v) := by
  rcases hp : p.inIoWindow
  · rw [write_physical hp, verdict_physical hp, ByteStore.write]
    split
    · exact ⟨_, rfl⟩
    · rfl
  · rw [write_io hp, verdict_io hp, IoWindow.write]
    rcases m.io.target? p w with _ | (i | start)
    · rfl
    · exact ⟨_, rfl⟩
    · exact ⟨_, rfl⟩

end Memory

/-! ## Translation -/

theorem Mapping.translate_eq_ofNat (x : Mapping) (a : Word) : x.translate a =
    BitVec.ofNat 64 (x.frame.toNat * pageSize + a.toNat % pageSize) := by
  apply BitVec.eq_of_toNat_eq
  have hlt := (x.translate a).isLt
  rw [x.toNat_translate] at hlt
  rw [x.toNat_translate, BitVec.toNat_ofNat, Nat.mod_eq_of_lt hlt]

namespace Machine

variable {m : Machine δ} {a : Word} {w : Width} {k : AccessKind}

theorem grants_eq_false_iff (m : Machine δ) (x : Mapping) (k : AccessKind) :
    x.grants k m.accessContext = false ↔ m.Forbids x k := by
  have hids : m.accessContext.protectionIds.contains x.protectionId = false ↔
      ∀ c ∈ [.protectionId0, .protectionId1, .protectionId2, .protectionId3],
        x.protectionId ≠ (m.registers.control c).setWidth 32 := by
    rw [← Bool.not_eq_true, List.contains_iff_mem, accessContext, List.mem_map]
    constructor
    · intro hnone c hc heq
      exact hnone ⟨c, hc, heq.symm⟩
    · rintro hne ⟨c, hc, heq⟩
      exact hne c hc heq.symm
  have hstatus : m.accessContext.status = m.registers.status := rfl
  rw [Mapping.grants, Forbids, Bool.and_eq_false_iff, Bool.or_eq_false_iff, Bool.and_eq_false_iff,
    Bool.or_eq_false_iff, hids, beq_eq_false_iff_ne, hstatus]

theorem peek_eq_entry? (m : Machine δ) (a : Word) : m.tlb.peek a = m.entry? a := by
  rw [Tlb.peek_eq_find?, Tlb.contents, List.find?_map, Option.map_map]
  rfl

theorem place_fst (m : Machine δ) (a : Word) (w : Width) (k : AccessKind) :
    (m.place a w k).1 = match m.location a w k with
      | .error r => .error (r.trap w k)
      | .ok p => .ok p := by
  have hbypass : m.accessContext.bypasses a = false ↔
      m.registers.status.translates = true ∧ a.inIoWindow = false := by
    have hstatus : m.accessContext.status = m.registers.status := rfl
    rw [AccessContext.bypasses, Bool.or_eq_false_iff, Bool.not_eq_false', hstatus, and_comm]
  unfold place location
  by_cases ha : a.toNat % w.bytes = 0
  · have haligned : w.isAligned a = true := by simpa [Width.isAligned] using ha
    rw [if_pos haligned, if_neg (by simpa using ha), Tlb.translate_fst, peek_eq_entry?]
    by_cases ht : m.registers.status.translates = true ∧ a.inIoWindow = false
    · rw [if_pos ht, if_neg (by simp [hbypass.mpr ht])]
      rcases m.entry? a with _ | x
      · rfl
      · by_cases hf : m.Forbids x k
        · simp only [hf, (m.grants_eq_false_iff x k).mpr hf, Bool.false_eq_true, if_true, if_false]
          rfl
        · have hgrants : x.grants k m.accessContext = true := by
            rwa [← m.grants_eq_false_iff x k, Bool.not_eq_false] at hf
          simp only [hf, hgrants, if_true, if_false, Mapping.translate_eq_ofNat]
    · have hb : m.accessContext.bypasses a = true := by
        rwa [← hbypass, Bool.not_eq_false] at ht
      rw [if_neg ht, if_pos hb]
  · have haligned : ¬ w.isAligned a = true := by simpa [Width.isAligned] using ha
    rw [if_neg haligned, if_pos ha]
    rfl

end Machine

/-! ## Loads and stores -/

namespace Session

/-- The computation ends with the trap of a refusal, which tells the address refused, and has moved
nothing but the recency of the translation buffer. -/
def Refuses (s : Session δ) (x : Exec δ α) (t : Trap) (a : Word) : Prop :=
  t.address = some a ∧
    ∃ tlb, tlb.contents = s.machine.tlb.contents ∧ x s = .error t (s.withTlb tlb)

/-- The computation answers `v`. It has taken over the memory and the events of the reply, and
besides recency only the registers and counts that are told have changed. -/
def Completes {β : Type} (s : Session δ) (x : Exec δ α) (v : α) (reply : Reply (Memory δ) β)
    (r : Registers) (c : Counters) : Prop :=
  ∃ tlb, tlb.contents = s.machine.tlb.contents ∧ x s = .ok v
    ⟨{ s.machine with tlb := tlb, memory := reply.after, registers := r, counters := c },
      s.log ++ reply.events⟩

variable [Device δ]

/-- How a load ends that has this verdict. It answers its physical address with its value. -/
def LoadEnds (s : Session δ) (a : Word) (w : Width) (signed : Bool) : Except Refusal Word → Prop
  | .error r => s.Refuses (Exec.loadPlaced a w signed) (r.trap w .read) r.address
  | .ok p => ∃ reply, s.machine.memory.read p w signed = .ok reply ∧
      s.Completes (Exec.loadPlaced a w signed) (p, reply.value) reply s.machine.registers
        { s.machine.counters with loads := s.machine.counters.loads + 1 }

/-- How a store ends that has this verdict. -/
def StoreEnds (s : Session δ) (a : Word) (w : Width) (v : Word) : Except Refusal Word → Prop
  | .error r => s.Refuses (Exec.store a w v) (r.trap w .write) r.address
  | .ok p => ∃ reply, s.machine.memory.write p w v = .ok reply ∧
      s.Completes (Exec.store a w v) () reply (s.machine.registers.noteStore p w.bytes)
        { s.machine.counters with stores := s.machine.counters.stores + 1 }

end Session

namespace Exec

variable {s : Session δ} {a p : Word} {w : Width} {k : AccessKind} {r : Refusal}

theorem translate_of_located (h : s.machine.location a w k = .ok p) :
    translate a w k s = .ok p (s.withTlb (s.machine.place a w k).2) :=
  translate_eq_ok.mpr ⟨by rw [Machine.place_fst, h], rfl⟩

/-- A computation that begins with a translation is refused with it. -/
theorem refuses_of_location {f : Word → Exec δ α} (h : s.machine.location a w k = .error r) :
    s.Refuses (translate a w k >>= f) (r.trap w k) r.address := by
  have ht : translate a w k s = .error (r.trap w k) (s.withTlb (s.machine.place a w k).2) :=
    translate_eq_error.mpr ⟨by rw [Machine.place_fst, h], rfl⟩
  exact ⟨r.address_trap w k, _, s.machine.contents_place a w k, bind_eq_error.mpr (.inl ht)⟩

variable [Device δ]

theorem loadEnds_verdict (s : Session δ) (a : Word) (w : Width) (signed : Bool) :
    s.LoadEnds a w signed (s.machine.verdict a w .read) := by
  unfold Machine.verdict
  have hcontents := s.machine.contents_place a w .read
  rcases hl : s.machine.location a w .read with r | p
  · exact refuses_of_location hl
  · have hread := s.machine.memory.decides_read p w signed .read
    have ht := translate_of_located hl
    rcases hv : s.machine.memory.verdict p w with r | q <;> simp only [hv, Decides] at hread ⊢
    · refine ⟨r.address_trap w .read, _, hcontents, (bind_of_eq_ok ht).trans ?_⟩
      exact bind_eq_error.mpr (.inl (absorb_eq_error.mpr ⟨hread, rfl⟩))
    · obtain rfl := Memory.eq_of_verdict hv
      obtain ⟨reply, hread⟩ := hread
      refine ⟨reply, hread, _, hcontents, (bind_of_eq_ok ht).trans ?_⟩
      exact bind_of_eq_ok (absorb_eq_ok.mpr ⟨reply, hread, rfl, rfl⟩)

theorem storeEnds_verdict (s : Session δ) (a v : Word) (w : Width) :
    s.StoreEnds a w v (s.machine.verdict a w .write) := by
  unfold Machine.verdict
  have hcontents := s.machine.contents_place a w .write
  rcases hl : s.machine.location a w .write with r | p
  · exact refuses_of_location hl
  · have hwrite := s.machine.memory.decides_write p v w .write
    have ht := translate_of_located hl
    rcases hv : s.machine.memory.verdict p w with r | q <;> simp only [hv, Decides] at hwrite ⊢
    · refine ⟨r.address_trap w .write, _, hcontents, (bind_of_eq_ok ht).trans ?_⟩
      have hhost : hostStore p w v (s.withTlb (s.machine.place a w .write).2) =
          .error (r.trap w .write) (s.withTlb (s.machine.place a w .write).2) :=
        bind_eq_error.mpr (.inl (absorb_eq_error.mpr ⟨hwrite, rfl⟩))
      exact bind_eq_error.mpr (.inl hhost)
    · obtain rfl := Memory.eq_of_verdict hv
      obtain ⟨reply, hwrite⟩ := hwrite
      refine ⟨reply, hwrite, _, hcontents, (bind_of_eq_ok ht).trans ?_⟩
      have hmemory : writeMemory q w v (s.withTlb (s.machine.place a w .write).2) =
          .ok () ((s.withTlb (s.machine.place a w .write).2).afterReply reply) :=
        absorb_eq_ok.mpr ⟨reply, hwrite, rfl, rfl⟩
      have hhost : hostStore q w v (s.withTlb (s.machine.place a w .write).2) = .ok () _ :=
        (bind_of_eq_ok hmemory).trans (mapRegisters_apply _)
      exact bind_of_eq_ok hhost

/-- The verdict decides every load and every store. -/
theorem access_decided (s : Session δ) (a v : Word) (w : Width) (signed : Bool) :
    s.LoadEnds a w signed (s.machine.verdict a w .read) ∧
      s.StoreEnds a w v (s.machine.verdict a w .write) :=
  ⟨loadEnds_verdict s a w signed, storeEnds_verdict s a v w⟩

end Exec

end Processor64
