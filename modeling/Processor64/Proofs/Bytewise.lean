import Mathlib.Algebra.BigOperators.Ring.Finset
import Processor64.Proofs.ByteMap
import Processor64.Proofs.Regular

/-!
# Accesses byte by byte

An aligned access lies in one page, and pages, the I/O window and physical memory end where a page
ends. So the verdict about each of its bytes is the verdict about the whole access, that many bytes
on (`Machine.verdict_byte`).

Outside the I/O window a load therefore answers with the bytes that loads of its bytes answer with
(`Session.LoadsBytewise`), and a store leaves what the stores of its bytes leave, in whatever order
these are made (`Session.StoresBytewise`): each puts its byte, and together they break the
reservations that the whole store breaks (`Reservation.meets_eq_any`).
-/

namespace Processor64

variable {δ : Type}

/-! ## The bytes of an access -/

section Address

variable {a : Word} {w : Width} {i : Nat}

/-- The bytes of an aligned access do not wrap. -/
theorem Width.toNat_add (ha : a.toNat % w.bytes = 0) (hi : i < w.bytes) :
    (a + BitVec.ofNat 64 i).toNat = a.toNat + i := by
  have hlt := a.isLt
  rw [BitVec.toNat_add, BitVec.toNat_ofNat, Nat.add_mod_mod, Nat.mod_eq_of_lt]
  cases w <;> simp only [bytes] at ha hi <;> omega

theorem Word.toNat_page (a : Word) : a.page.toNat = a.toNat / pageSize := by
  have hlt := a.isLt
  simp only [page, BitVec.extractLsb'_toNat, Nat.shiftRight_eq_div_pow, pageSize]
  omega

theorem Width.page_add (ha : a.toNat % w.bytes = 0) (hi : i < w.bytes) :
    (a + BitVec.ofNat 64 i).page = a.page := by
  apply BitVec.eq_of_toNat_eq
  rw [Word.toNat_page, Word.toNat_page, toNat_add ha hi]
  cases w <;> simp only [bytes, pageSize] at ha hi ⊢ <;> omega

theorem Width.inIoWindow_add (ha : a.toNat % w.bytes = 0) (hi : i < w.bytes) :
    (a + BitVec.ofNat 64 i).inIoWindow = a.inIoWindow := by
  rw [Word.inIoWindow, Word.inIoWindow, toNat_add ha hi, Bool.eq_iff_iff]
  simp only [Bool.and_eq_true, decide_eq_true_eq]
  cases w <;> simp only [bytes, ioStart, ioLimit] at ha hi ⊢ <;> omega

end Address

/-! ## Verdicts -/

/-- The same refusal of another address. -/
def Refusal.moved (i : Nat) : Refusal → Refusal
  | misaligned a => misaligned (a + BitVec.ofNat 64 i)
  | unmapped a => unmapped (a + BitVec.ofNat 64 i)
  | denied a => denied (a + BitVec.ofNat 64 i)
  | unclaimedIo p => unclaimedIo (p + BitVec.ofNat 64 i)
  | outsidePhysical p => outsidePhysical (p + BitVec.ofNat 64 i)

theorem Refusal.code_moved (r : Refusal) (i : Nat) (w x : Width) (k : AccessKind) :
    ((r.moved i).trap x k).code = (r.trap w k).code := by
  cases r <;> rfl

/-- The verdict about an access some bytes on, if it is the same. -/
def verdictOn (i : Nat) : Except Refusal Word → Except Refusal Word
  | .error r => .error (r.moved i)
  | .ok p => .ok (p + BitVec.ofNat 64 i)

/-- The address is outside the I/O window, and so is the frame that it is mapped to if addresses
are translated. -/
structure Machine.OutsideIo (m : Machine δ) (a : Word) : Prop where
  address : a.inIoWindow = false
  frame : m.registers.status.translates = true → ∀ x, m.entry? a = some x →
    x.frame.address.inIoWindow = false

namespace Machine

variable {m n : Machine δ} {a p : Word} {w : Width} {k : AccessKind} {i : Nat}

theorem entry?_add (ha : a.toNat % w.bytes = 0) (hi : i < w.bytes) :
    m.entry? (a + BitVec.ofNat 64 i) = m.entry? a := by
  unfold Machine.entry?
  rw [Width.page_add ha hi]

theorem location_byte (ha : a.toNat % w.bytes = 0) (hi : i < w.bytes) :
    m.location (a + BitVec.ofNat 64 i) .byte k = verdictOn i (m.location a w k) := by
  have hwide : ¬ a.toNat % w.bytes ≠ 0 := not_not_intro ha
  have hbyte : ¬ (a + BitVec.ofNat 64 i).toNat % Width.bytes .byte ≠ 0 := by
    simp [Width.bytes, Nat.mod_one]
  have hoffset : (a.toNat + i) % pageSize = a.toNat % pageSize + i := by
    cases w <;> simp only [Width.bytes, pageSize] at ha hi ⊢ <;> omega
  rw [location, location, if_neg hbyte, if_neg hwide, entry?_add ha hi,
    Width.inIoWindow_add ha hi, Width.toNat_add ha hi, hoffset]
  split
  · rcases m.entry? a with _ | x
    · rfl
    · dsimp only
      split
      · rfl
      · rw [verdictOn, ← Nat.add_assoc, BitVec.ofNat_add]
  · rfl

/-- An access outside the I/O window is made outside of it, at an address that is aligned too. -/
theorem OutsideIo.of_location (h : m.OutsideIo a) (ha : a.toNat % w.bytes = 0)
    (hl : m.location a w k = .ok p) : p.inIoWindow = false ∧ p.toNat % w.bytes = 0 := by
  rw [location, if_neg (not_not_intro ha)] at hl
  split at hl
  · rename_i ht
    rcases hx : m.entry? a with _ | x <;> rw [hx] at hl <;> simp only [reduceCtorEq] at hl
    split at hl
    · cases hl
    · obtain rfl := Except.ok.inj hl
      have hframe := h.frame ht.1 x hx
      simp only [Word.inIoWindow, Page.address, Page.toNat_withOffset, Bool.and_eq_false_iff,
        decide_eq_false_iff_not] at hframe
      rw [← Mapping.translate_eq_ofNat, Word.inIoWindow, Bool.and_eq_false_iff,
        decide_eq_false_iff_not, decide_eq_false_iff_not, x.toNat_translate]
      constructor
      · simp only [ioStart, ioLimit, pageSize] at hframe ⊢
        omega
      · cases w <;> simp only [Width.bytes, pageSize] at ha ⊢ <;> omega
  · obtain rfl := Except.ok.inj hl
    exact ⟨h.address, ha⟩

theorem OutsideIo.add (h : m.OutsideIo a) (ha : a.toNat % w.bytes = 0) (hi : i < w.bytes) :
    m.OutsideIo (a + BitVec.ofNat 64 i) where
  address := (Width.inIoWindow_add ha hi).trans h.address
  frame := by
    rw [entry?_add ha hi]
    exact h.frame

/-- Accesses are decided alike in the two machines. -/
structure DecidesAlike (m n : Machine δ) : Prop where
  status : n.registers.status = m.registers.status
  controls : n.registers.controls = m.registers.controls
  contents : n.tlb.contents = m.tlb.contents
  size : n.memory.physical.size = m.memory.physical.size
  io : n.memory.io = m.memory.io

namespace DecidesAlike

variable {o : Machine δ}

theorem refl (m : Machine δ) : m.DecidesAlike m := ⟨rfl, rfl, rfl, rfl, rfl⟩

theorem trans (h : m.DecidesAlike n) (h' : n.DecidesAlike o) : m.DecidesAlike o where
  status := h'.status.trans h.status
  controls := h'.controls.trans h.controls
  contents := h'.contents.trans h.contents
  size := h'.size.trans h.size
  io := h'.io.trans h.io

theorem entry? (h : m.DecidesAlike n) (a : Word) : n.entry? a = m.entry? a := by
  rw [← peek_eq_entry?, ← peek_eq_entry?, Tlb.peek_eq_find?, Tlb.peek_eq_find?, h.contents]

theorem outsideIo (h : m.DecidesAlike n) (hout : m.OutsideIo a) : n.OutsideIo a where
  address := hout.address
  frame := by
    rw [h.status, h.entry?]
    exact hout.frame

end DecidesAlike

end Machine

theorem Memory.verdict_byte [Device δ] {m : Memory δ} {p : Word} {w : Width} {i : Nat}
    (hm : m.physical.size % pageSize = 0) (hp : p.inIoWindow = false)
    (ha : p.toNat % w.bytes = 0) (hi : i < w.bytes) :
    m.verdict (p + BitVec.ofNat 64 i) .byte = verdictOn i (m.verdict p w) := by
  -- physical memory does not end inside the access
  have hends : m.physical.size < p.toNat + i + Width.bytes .byte ↔
      m.physical.size < p.toNat + w.bytes := by
    cases w <;> simp only [Width.bytes, pageSize] at ha hi hm ⊢ <;> omega
  simp only [verdict, Width.inIoWindow_add ha hi, hp, Width.toNat_add ha hi, hends,
    Bool.false_eq_true, if_false]
  split <;> rfl

namespace Machine

variable [Device δ] {m n : Machine δ} {a p : Word} {w : Width} {k : AccessKind} {i : Nat}

/-- The verdict about a byte of an access is the verdict about the access. -/
theorem verdict_byte (h : m.Regular) (hout : m.OutsideIo a) (ha : a.toNat % w.bytes = 0)
    (hi : i < w.bytes) :
    m.verdict (a + BitVec.ofNat 64 i) .byte k = verdictOn i (m.verdict a w k) := by
  rw [verdict, verdict, location_byte ha hi]
  rcases hl : m.location a w k with r | p
  · rfl
  · obtain ⟨hp, hpa⟩ := hout.of_location ha hl
    exact Memory.verdict_byte h.pages hp hpa hi

/-- Where an access is admitted outside the I/O window, there is physical memory. -/
theorem OutsideIo.of_verdict (h : m.OutsideIo a) (ha : a.toNat % w.bytes = 0)
    (hv : m.verdict a w k = .ok p) :
    p.inIoWindow = false ∧ p.toNat % w.bytes = 0 ∧
      p.toNat + w.bytes ≤ m.memory.physical.size := by
  unfold verdict at hv
  rcases hl : m.location a w k with r | q <;> rw [hl] at hv
  · cases hv
  · obtain ⟨hq, hqa⟩ := h.of_location ha hl
    obtain rfl := Memory.eq_of_verdict (show m.memory.verdict q w = .ok p from hv)
    refine ⟨hq, hqa, Nat.le_of_not_lt fun hends => ?_⟩
    simp [Memory.verdict, hq, hends] at hv

theorem DecidesAlike.verdict (h : m.DecidesAlike n) (a : Word) (w : Width) (k : AccessKind) :
    n.verdict a w k = m.verdict a w k := by
  have hforbids (x : Mapping) : n.Forbids x k ↔ m.Forbids x k := by
    simp only [Forbids, Registers.control, Registers.controlCell, h.status, h.controls]
  have hlocation : n.location a w k = m.location a w k := by
    simp only [location, h.status, h.entry?, hforbids]
  have hmemory (p : Word) : n.memory.verdict p w = m.memory.verdict p w := by
    simp only [Memory.verdict, h.size, h.io]
  rw [Machine.verdict, Machine.verdict, hlocation]
  simp only [hmemory]

end Machine

/-! ## Loads -/

theorem littleEndian_map_range (f : Nat → UInt8) (n : Nat) :
    littleEndian ((List.range n).map f) = ∑ i ∈ Finset.range n, (f i).toNat * 256 ^ i := by
  induction n generalizing f with
  | zero => rfl
  | succ n ih =>
    have hrest : littleEndian ((List.range n).map fun i => f (i + 1)) * 256 =
        ∑ i ∈ Finset.range n, (f (i + 1)).toNat * 256 ^ (i + 1) := by
      rw [ih, Finset.sum_mul]
      exact Finset.sum_congr rfl fun i _ => by rw [Nat.pow_succ, Nat.mul_assoc]
    rw [List.range_succ_eq_map, List.map_cons, List.map_map, littleEndian, Finset.sum_range_succ',
      ← hrest, Nat.pow_zero, Nat.mul_one, Nat.add_comm, Nat.mul_comm]
    rfl

/-- The value of an access to physical memory is that of its bytes. -/
theorem ByteStore.toNat_extend_raw (s : ByteStore) (p : Word) (w : Width) :
    (w.extend (s.raw p.toNat w) false).toNat =
      ∑ i ∈ Finset.range w.bytes, (s.byte (p.toNat + i)).toNat * 256 ^ i := by
  rw [← littleEndian_map_range, raw, bytesAt_eq_map]
  have hvalue : (w.extend (BitVec.ofNat 64 _) false).IsValueAt s.byte p w false :=
    Width.isValueAt_extend false (w.toNat_littleEndian _)
  exact hvalue

theorem ByteStore.extend_raw_byte (s : ByteStore) (a : Nat) :
    Width.byte.extend (s.raw a .byte) false = BitVec.ofNat 64 (s.byte a).toNat := by
  have hb := (s.byte a).toNat_lt
  apply BitVec.eq_of_toNat_eq
  simp only [raw, Width.bytes, bytesAt, littleEndian, Width.extend, Bool.false_eq_true, if_false,
    Width.truncate, Width.bits, BitVec.toNat_setWidth, BitVec.toNat_ofNat]
  omega

/-- The load of a byte of an access. -/
def Command.loadByte (a : Word) (i : Nat) : Command δ := .load (a + BitVec.ofNat 64 i) .byte false

/-- The store of a byte of a value. -/
def Command.storeByte (a v : Word) (i : Nat) : Command δ :=
  .store (a + BitVec.ofNat 64 i) .byte (BitVec.ofNat 64 (v.byte i).toNat)

namespace Session

variable [Device δ] {s : Session δ} {a p v : Word} {w : Width}

/-- A load outside the I/O window is answered by its verdict and the bytes it covers, and it changes
nothing that a later access is decided by. -/
theorem perform_load (hout : s.machine.OutsideIo a) (ha : a.toNat % w.bytes = 0) :
    ((s.perform (.load a w false)).1 = match s.machine.verdict a w .read with
      | .error r => .trapped (r.trap w .read)
      | .ok p => .word (w.extend (s.machine.memory.physical.raw p.toNat w) false)) ∧
    s.machine.DecidesAlike (s.perform (.load a w false)).2.machine ∧
    (s.perform (.load a w false)).2.machine.memory = s.machine.memory := by
  have hends := Exec.loadEnds_verdict s a w false
  show ((s.answer (Exec.load a w false) .word).1 = _) ∧ _
  rw [perform, answer_snd, Exec.after]
  unfold answer
  rcases hv : s.machine.verdict a w .read with r | p <;> rw [hv] at hends
  · obtain ⟨-, tlb, ht, hx⟩ := hends
    have hload : Exec.load a w false s = .error (r.trap w .read) (s.withTlb tlb) :=
      Exec.bind_eq_error.mpr (.inl hx)
    rw [hload]
    exact ⟨rfl, ⟨rfl, rfl, ht, rfl, rfl⟩, rfl⟩
  · obtain ⟨hio, -, hle⟩ := hout.of_verdict ha hv
    obtain ⟨reply, hr, tlb, ht, hx⟩ := hends
    rw [Memory.read_physical hio, ByteStore.read_of_le hle] at hr
    obtain rfl := Except.ok.inj hr
    have hload : Exec.load a w false s = _ := Exec.bind_of_eq_ok hx
    rw [hload]
    exact ⟨rfl, ⟨rfl, rfl, ht, rfl, rfl⟩, rfl⟩

/-- Requests that are made one after another are answered as what holds after those before them
tells, and the last of them leaves what holds after all. -/
theorem serveAll_requests {P : List Nat → Session δ → Prop} {c : Nat → Command δ}
    {answer : Nat → Answer} {is : List Nat} (hs : P [] s)
    (hstep : ∀ js u, P js u → ∀ i ∈ is,
      (u.perform (c i)).1 = answer i ∧ P (js ++ [i]) (u.perform (c i)).2) :
    (s.serveAll (is.map fun i => .request (c i))).1 = is.map answer ∧
      P is (s.serveAll (is.map fun i => .request (c i))).2 := by
  suffices h : ∀ ks ⊆ is, ∀ js u, P js u →
      (u.serveAll (ks.map fun i => .request (c i))).1 = ks.map answer ∧
        P (js ++ ks) (u.serveAll (ks.map fun i => .request (c i))).2 from
    h is (List.Subset.refl is) [] s hs
  intro ks
  induction ks with
  | nil =>
    intro _ js u hu
    rw [List.append_nil]
    exact ⟨rfl, hu⟩
  | cons i ks ih =>
    intro hsub js u hu
    obtain ⟨hi, hks⟩ := List.cons_subset.mp hsub
    obtain ⟨hanswer, hnext⟩ := hstep js u hu i hi
    obtain ⟨hanswers, hrest⟩ := ih hks (js ++ [i]) _ hnext
    rw [List.append_assoc] at hrest
    exact ⟨congrArg₂ List.cons hanswer hanswers, hrest⟩

/-- A load finds what loads of its bytes find, as a number with the lowest byte first, or is refused
for the reason that each of them is refused for. -/
structure LoadsBytewise (s : Session δ) (a : Word) (w : Width) : Prop where
  loads : (∃ v, (s.perform (.load a w false)).1 = .word v) ↔
    ∀ i < w.bytes, ∃ b, (s.perform (.loadByte a i)).1 = .word b
  value : ∀ v (b : Nat → Word), (s.perform (.load a w false)).1 = .word v →
    (∀ i < w.bytes, (s.perform (.loadByte a i)).1 = .word (b i)) →
      v.toNat = ∑ i ∈ Finset.range w.bytes, (b i).toNat * 256 ^ i
  traps : (∀ v, (s.perform (.load a w false)).1 ≠ .word v) →
    ∃ t, (s.perform (.load a w false)).1 = .trapped t ∧
      ∀ i < w.bytes, ∃ u, (s.perform (.loadByte a i)).1 = .trapped u ∧ u.code = t.code
  order : ∀ is : List Nat, (∀ i ∈ is, i < w.bytes) →
    (s.serveAll (is.map fun i => .request (.loadByte a i))).1 =
      is.map fun i => (s.perform (.loadByte a i)).1

/-- The answer of a load of one byte. -/
theorem perform_loadByte (h : s.machine.Regular) (hout : s.machine.OutsideIo a)
    (ha : a.toNat % w.bytes = 0) {i : Nat} (hi : i < w.bytes) :
    (s.perform (.loadByte a i)).1 = match s.machine.verdict a w .read with
      | .error r => .trapped ((r.moved i).trap .byte .read)
      | .ok p => .word (BitVec.ofNat 64 (s.machine.memory.physical.byte (p.toNat + i)).toNat) := by
  obtain ⟨hanswer, -⟩ := perform_load (w := .byte) (hout.add ha hi) (Nat.mod_one _)
  rw [Machine.verdict_byte h hout ha hi] at hanswer
  refine hanswer.trans ?_
  rcases hv : s.machine.verdict a w .read with r | p
  · rfl
  · obtain ⟨-, hpa, -⟩ := hout.of_verdict ha hv
    simp only [verdictOn, Width.toNat_add hpa hi, ByteStore.extend_raw_byte]

/-- Loads of bytes one after another are answered as each of them is alone. -/
theorem order_of_loads (hout : s.machine.OutsideIo a) (ha : a.toNat % w.bytes = 0) {is : List Nat}
    (his : ∀ i ∈ is, i < w.bytes) : (s.serveAll (is.map fun i => .request (.loadByte a i))).1 =
      is.map fun i => (s.perform (.loadByte a i)).1 := by
  refine (serveAll_requests (P := fun _ u => s.machine.DecidesAlike u.machine ∧
    u.machine.memory = s.machine.memory) ⟨.refl _, rfl⟩ fun _ u hu i hi => ?_).1
  have hmod : (a + BitVec.ofNat 64 i).toNat % Width.bytes .byte = 0 := Nat.mod_one _
  have hbyte := hout.add ha (his i hi)
  obtain ⟨hanswer, -⟩ := perform_load (s := s) hbyte hmod
  obtain ⟨hanswer', halike, hmemory⟩ := perform_load (hu.1.outsideIo hbyte) hmod
  rw [hu.1.verdict, hu.2] at hanswer'
  exact ⟨hanswer'.trans hanswer.symm, hu.1.trans halike, hmemory.trans hu.2⟩

theorem loadsBytewise (h : s.machine.Regular) (hout : s.machine.OutsideIo a)
    (ha : a.toNat % w.bytes = 0) : s.LoadsBytewise a w := by
  obtain ⟨hwide, -⟩ := perform_load hout ha
  have hbyte (i : Nat) (hi : i < w.bytes) := perform_loadByte h hout ha hi
  have hpos : 0 < w.bytes := by cases w <;> decide
  rcases hv : s.machine.verdict a w .read with r | p <;> rw [hv] at hwide <;>
    simp only [hv] at hbyte
  · refine ⟨⟨fun hloads => ?_, fun hloads => ?_⟩, fun v _ hv _ => ?_, fun _ => ⟨_, hwide, ?_⟩,
      fun _ => order_of_loads hout ha⟩
    · obtain ⟨v, hv⟩ := hloads
      simp [hwide] at hv
    · obtain ⟨b, hb⟩ := hloads 0 hpos
      simp [hbyte 0 hpos] at hb
    · simp [hwide] at hv
    · exact fun i hi => ⟨_, hbyte i hi, r.code_moved i w .byte .read⟩
  · refine ⟨⟨fun _ i hi => ⟨_, hbyte i hi⟩, fun _ => ⟨_, hwide⟩⟩, fun v b hv hb => ?_,
      fun hv => absurd hwide (hv _), fun _ => order_of_loads hout ha⟩
    obtain rfl := Answer.word.inj (hwide.symm.trans hv)
    rw [ByteStore.toNat_extend_raw]
    refine Finset.sum_congr rfl fun i hi => ?_
    have hrange := Finset.mem_range.mp hi
    have hlt := (s.machine.memory.physical.byte (p.toNat + i)).toNat_lt
    rw [← Answer.word.inj ((hbyte i hrange).symm.trans (hb i hrange)), BitVec.toNat_ofNat,
      Nat.mod_eq_of_lt (Nat.lt_trans hlt (by decide))]

end Session

/-! ## Stores -/

/-- A store meets a reservation if one of its bytes does. -/
theorem Reservation.meets_eq_any {r : Reservation} {p : Word} {w : Width}
    (hr : ∃ x : Width, r.length = x.bytes) (hp : p.toNat + w.bytes ≤ ioStart) :
    r.meets p w.bytes =
      (List.range w.bytes).any fun i => r.meets (p + BitVec.ofNat 64 i) 1 := by
  have hw : 0 < w.bytes ∧ w.bytes ≤ 8 := by cases w <;> decide
  have hlength : 0 < r.length ∧ r.length ≤ 8 := by
    obtain ⟨x, hx⟩ := hr
    rw [hx]
    cases x <;> decide
  have hlt := r.address.isLt
  simp only [ioStart] at hp
  rw [Bool.eq_iff_iff, List.any_eq_true]
  simp only [meets, Bool.and_eq_true, BitVec.ult, decide_eq_true_eq, BitVec.toNat_add,
    BitVec.toNat_ofNat, List.mem_range]
  constructor
  · rintro ⟨hlo, hhi⟩
    exact ⟨r.address.toNat - p.toNat, by omega, by omega, by omega⟩
  · rintro ⟨i, hi, hlo, hhi⟩
    omega

theorem Registers.reservation_noteStore (s : Registers) (p : Word) (n : Nat) :
    (s.noteStore p n).reservation = s.reservation.filter fun r => !r.meets p n := by
  rcases hr : s.reservation with _ | r
  · rw [noteStore_of_none hr, hr]
    rfl
  · rw [noteStore_of_some hr, Option.filter_some]
    rcases r.meets p n
    · exact hr
    · rfl

theorem Word.byte_ofNat_toNat (b : UInt8) : Word.byte (BitVec.ofNat 64 b.toNat) 0 = b := by
  have hb := b.toNat_lt
  rw [byte, BitVec.toNat_ofNat, Nat.mod_eq_of_lt (Nat.lt_trans hb (by decide)), Nat.pow_zero,
    Nat.div_one, UInt8.ofNat_toNat]

/-- Of the bytes of a value from `p` on, those at the places in the list have been put into physical
memory, and have broken the reservation if it meets one of them. -/
structure Machine.Written (m n : Machine δ) (p v : Word) (is : List Nat) : Prop where
  alike : m.DecidesAlike n
  bytes : ∀ b, n.memory.physical.byte b =
    if p.toNat ≤ b ∧ b - p.toNat ∈ is then v.byte (b - p.toNat) else m.memory.physical.byte b
  reservation : n.registers.reservation = m.registers.reservation.filter fun r =>
    is.all fun i => !r.meets (p + BitVec.ofNat 64 i) 1

namespace Machine.Written

variable {m n o : Machine δ} {p v : Word} {is js : List Nat}

theorem of_same (h : m.DecidesAlike n) (hm : n.memory = m.memory)
    (hr : n.registers.reservation = m.registers.reservation) : m.Written n p v [] where
  alike := h
  bytes b := by simp [hm]
  reservation := by
    rw [hr]
    cases m.registers.reservation <;> rfl

theorem trans (h : m.Written n p v is) (h' : n.Written o p v js) : m.Written o p v (is ++ js) where
  alike := h.alike.trans h'.alike
  bytes b := by
    rw [h'.bytes, h.bytes]
    by_cases hlo : p.toNat ≤ b
    · by_cases hi : b - p.toNat ∈ is <;> by_cases hj : b - p.toNat ∈ js <;> simp [hlo, hi, hj]
    · simp [hlo]
  reservation := by
    rw [h'.reservation, h.reservation, Option.filter_filter]
    simp only [List.all_append]

/-- The order in which the bytes have been put makes no difference. -/
theorem eq_of_perm (h : m.Written n p v is) (h' : m.Written o p v js) (hp : is.Perm js) :
    n.memory = o.memory ∧ n.registers.reservation = o.registers.reservation := by
  have hphysical : n.memory.physical = o.memory.physical := by
    refine ByteStore.ext_byte (h.alike.size.trans h'.alike.size.symm) fun b => ?_
    simp only [h.bytes, h'.bytes, hp.mem_iff]
  have hio : n.memory.io = o.memory.io := h.alike.io.trans h'.alike.io.symm
  constructor
  · calc n.memory = ⟨n.memory.physical, n.memory.io⟩ := rfl
      _ = ⟨o.memory.physical, o.memory.io⟩ := by rw [hphysical, hio]
  · rw [h.reservation, h'.reservation]
    simp only [hp.all_eq]

end Machine.Written

namespace Session

variable [Device δ] {s : Session δ} {a p v : Word} {w : Width} {r : Refusal}

/-- A store that is refused puts no byte. -/
theorem written_of_refused (hv : s.machine.verdict a w .write = .error r) (v q x : Word) :
    (s.perform (.store a w v)).1 = .trapped (r.trap w .write) ∧
      s.machine.Written (s.perform (.store a w v)).2.machine q x [] := by
  have hends := Exec.storeEnds_verdict s a v w
  rw [hv] at hends
  obtain ⟨-, tlb, ht, hx⟩ := hends
  rw [perform, answer, hx]
  exact ⟨rfl, .of_same ⟨rfl, rfl, ht, rfl, rfl⟩ rfl rfl⟩

theorem perform_store_admitted (hv : s.machine.verdict a w .write = .ok p)
    (hp : p.inIoWindow = false) (v : Word) :
    let n := (s.perform (.store a w v)).2.machine
    (s.perform (.store a w v)).1 = .done ∧ s.machine.DecidesAlike n ∧
      (∀ b, n.memory.physical.byte b = if p.toNat ≤ b ∧ b < p.toNat + w.bytes then
        v.byte (b - p.toNat) else s.machine.memory.physical.byte b) ∧
      n.registers.reservation =
        s.machine.registers.reservation.filter fun r => !r.meets p w.bytes := by
  have hends := Exec.storeEnds_verdict s a v w
  rw [hv] at hends
  obtain ⟨reply, hw, tlb, ht, hx⟩ := hends
  have hbytes := Memory.byte_write hw
  have hio : reply.after.io = s.machine.memory.io :=
    ((s.machine.memory.apart.outside p hp).1.write w v reply hw)
  simp only [hp, true_and] at hbytes
  rw [perform, answer, hx]
  exact ⟨rfl, ⟨Registers.status_noteStore _ _ _, Registers.controls_noteStore _ _ _, ht,
    Memory.size_write hw, hio⟩, hbytes, Registers.reservation_noteStore _ _ _⟩

/-- A store that is admitted puts all its bytes. -/
theorem written_store (h : s.machine.Regular) (hout : s.machine.OutsideIo a)
    (ha : a.toNat % w.bytes = 0) (hv : s.machine.verdict a w .write = .ok p) (v : Word) :
    (s.perform (.store a w v)).1 = .done ∧
      s.machine.Written (s.perform (.store a w v)).2.machine p v (List.range w.bytes) := by
  obtain ⟨hp, -, hle⟩ := hout.of_verdict ha hv
  obtain ⟨hdone, halike, hbytes, hreservation⟩ := perform_store_admitted hv hp v
  refine ⟨hdone, halike, fun b => ?_, ?_⟩
  · have hrange : (p.toNat ≤ b ∧ b < p.toNat + w.bytes) ↔
        (p.toNat ≤ b ∧ b - p.toNat ∈ List.range w.bytes) := by
      rw [List.mem_range]
      omega
    simp only [hbytes, hrange]
  · rw [hreservation]
    rcases hr : s.machine.registers.reservation with _ | r
    · rfl
    · rw [Option.filter_some, Option.filter_some,
        Reservation.meets_eq_any (h.reserved r hr) (Nat.le_trans hle h.below),
        List.not_any_eq_all_not]

/-- A store of one byte of a value that is admitted puts that byte. -/
theorem written_storeByte (h : s.machine.Regular) (hout : s.machine.OutsideIo a)
    (ha : a.toNat % w.bytes = 0) (hv : s.machine.verdict a w .write = .ok p) (v : Word) {i : Nat}
    (hi : i < w.bytes) {u : Session δ} (hu : s.machine.DecidesAlike u.machine) :
    (u.perform (.storeByte a v i)).1 = .done ∧
      u.machine.Written (u.perform (.storeByte a v i)).2.machine p v [i] := by
  obtain ⟨hp, hpa, -⟩ := hout.of_verdict ha hv
  have hbyte : u.machine.verdict (a + BitVec.ofNat 64 i) .byte .write =
      .ok (p + BitVec.ofNat 64 i) := by
    rw [hu.verdict, Machine.verdict_byte h hout ha hi, hv, verdictOn]
  obtain ⟨hdone, halike, hbytes, hreservation⟩ := perform_store_admitted hbyte
    ((Width.inIoWindow_add hpa hi).trans hp) (BitVec.ofNat 64 (v.byte i).toNat)
  refine ⟨hdone, halike, fun b => ?_, ?_⟩
  · refine (hbytes b).trans ?_
    rw [Width.toNat_add hpa hi, Width.bytes]
    by_cases hb : b = p.toNat + i
    · subst hb
      simp [Word.byte_ofNat_toNat]
    · rw [if_neg (by omega), if_neg (by rw [List.mem_singleton]; omega)]
  · refine hreservation.trans ?_
    simp only [List.all_cons, List.all_nil, Bool.and_true, Width.bytes]

/-- A store leaves what the stores of the bytes of its value leave in any order, or is refused for
the reason that each of them is refused for. -/
structure StoresBytewise (s : Session δ) (a : Word) (w : Width) (v : Word) : Prop where
  stores : (s.perform (.store a w v)).1 = .done ↔
    ∀ i < w.bytes, (s.perform (.storeByte a v i)).1 = .done
  traps : ∀ c, (∃ t, (s.perform (.store a w v)).1 = .trapped t ∧ t.code = c) ↔
    ∀ i < w.bytes, ∃ t, (s.perform (.storeByte a v i)).1 = .trapped t ∧ t.code = c
  order : ∀ is : List Nat, is.Perm (List.range w.bytes) →
    let u := s.serveAll (is.map fun i => .request (.storeByte a v i))
    let n := (s.perform (.store a w v)).2.machine
    u.1 = is.map (fun i => (s.perform (.storeByte a v i)).1) ∧
      u.2.machine.memory = n.memory ∧
      u.2.machine.registers.reservation = n.registers.reservation

/-- Stores of bytes in any order leave what another store leaves, if they put the same bytes. -/
theorem order_of_written {q x : Word} {f : Nat → List Nat} {is ks : List Nat} {n : Machine δ}
    {answer : Nat → Answer} (hwide : s.machine.Written n q x ks) (hks : (is.flatMap f).Perm ks)
    (hstep : ∀ u : Session δ, s.machine.DecidesAlike u.machine → ∀ i ∈ is,
      (u.perform (.storeByte a v i)).1 = answer i ∧
        u.machine.Written (u.perform (.storeByte a v i)).2.machine q x (f i)) :
    let u := s.serveAll (is.map fun i => .request (.storeByte a v i))
    u.1 = is.map answer ∧ u.2.machine.memory = n.memory ∧
      u.2.machine.registers.reservation = n.registers.reservation := by
  obtain ⟨hanswers, hwritten⟩ := serveAll_requests
    (P := fun js u => s.machine.Written u.machine q x (js.flatMap f))
    (.of_same (.refl _) rfl rfl) fun js u hu i hi => by
      obtain ⟨hanswer, hnext⟩ := hstep u hu.alike i hi
      rw [List.flatMap_append, List.flatMap_singleton]
      exact ⟨hanswer, hu.trans hnext⟩
  exact ⟨hanswers, hwritten.eq_of_perm hwide hks⟩

theorem storesBytewise (h : s.machine.Regular) (hout : s.machine.OutsideIo a)
    (ha : a.toNat % w.bytes = 0) (v : Word) : s.StoresBytewise a w v := by
  have hpos : 0 < w.bytes := by cases w <;> decide
  have hlt {is : List Nat} (his : is.Perm (List.range w.bytes)) {i : Nat} (hi : i ∈ is) :
      i < w.bytes := List.mem_range.mp (his.mem_iff.mp hi)
  rcases hv : s.machine.verdict a w .write with r | p
  · have hbyte (u : Session δ) (hu : s.machine.DecidesAlike u.machine) (i : Nat)
        (hi : i < w.bytes) := written_of_refused (s := u) (r := r.moved i)
      ((hu.verdict _ _ _).trans (by rw [Machine.verdict_byte h hout ha hi, hv, verdictOn]))
      (BitVec.ofNat 64 (v.byte i).toNat) 0 0
    obtain ⟨hwide, hwritten⟩ := written_of_refused hv v 0 0
    have hfirst := (hbyte s (.refl _) 0 hpos).1
    refine ⟨⟨fun hdone => ?_, fun hdone => ?_⟩, fun c => ⟨?_, fun ht => ?_⟩, fun is his => ?_⟩
    · simp [hwide] at hdone
    · exact absurd (hfirst.symm.trans (hdone 0 hpos)) (by simp)
    · rintro ⟨t, ht, hc⟩ i hi
      obtain rfl := Answer.trapped.inj (hwide.symm.trans ht)
      exact ⟨_, (hbyte s (.refl _) i hi).1, (r.code_moved i w .byte .write).trans hc⟩
    · obtain ⟨t, ht, hc⟩ := ht 0 hpos
      obtain rfl := Answer.trapped.inj (hfirst.symm.trans ht)
      exact ⟨_, hwide, (r.code_moved 0 w .byte .write).symm.trans hc⟩
    · refine order_of_written (f := fun _ => []) hwritten (by simp) fun u hu i hi => ?_
      obtain ⟨htrapped, hnext⟩ := hbyte u hu i (hlt his hi)
      exact ⟨htrapped.trans (hbyte s (.refl _) i (hlt his hi)).1.symm, hnext⟩
  · have hbyte (u : Session δ) (hu : s.machine.DecidesAlike u.machine) (i : Nat)
        (hi : i < w.bytes) := written_storeByte h hout ha hv v hi hu
    obtain ⟨hwide, hwritten⟩ := written_store h hout ha hv v
    have hfirst := (hbyte s (.refl _) 0 hpos).1
    refine ⟨⟨fun _ i hi => (hbyte s (.refl _) i hi).1, fun _ => hwide⟩, fun c => ⟨?_, fun ht => ?_⟩,
      fun is his => ?_⟩
    · rintro ⟨t, ht, -⟩
      simp [hwide] at ht
    · obtain ⟨t, ht, -⟩ := ht 0 hpos
      simp [hfirst] at ht
    · refine order_of_written (f := fun i => [i]) hwritten (by simpa using his) fun u hu i hi => ?_
      obtain ⟨hdone, hnext⟩ := hbyte u hu i (hlt his hi)
      exact ⟨hdone.trans (hbyte s (.refl _) i (hlt his hi)).1.symm, hnext⟩

/-- In every state of a machine of a valid configuration, an aligned load or store outside the I/O
window is the loads or stores of its bytes. -/
theorem accesses_bytewise {c : Config} {s₀ : Session δ} (h : create c = .ok s₀)
    {past : List (HostAction δ)} (hpast : ∀ x ∈ past, x.KeepsSize) {a : Word} {w : Width}
    (ha : w.isAligned a = true) (hout : (s₀.serveAll past).2.machine.OutsideIo a) (v : Word) :
    (s₀.serveAll past).2.LoadsBytewise a w ∧ (s₀.serveAll past).2.StoresBytewise a w v := by
  have hregular := regular_serveAll (regular_create h) hpast
  have hmod : a.toNat % w.bytes = 0 := by simpa [Width.isAligned] using ha
  exact ⟨loadsBytewise hregular hout hmod, storesBytewise hregular hout hmod v⟩

/-- A load with reserve, an insertion of a mapping, and the mode that translates. -/
def aliasingProgram : List InstructionWord :=
  [.pack 1 10 1 0 0 0x6100, .pack 3 4 2 0 3 0x800, .pack 3 6 5 0 0 4]

/-- Eight bytes are reserved, and then their page is mapped at 0x8000. -/
def aliasing : List (HostAction Empty) :=
  [.memory fun m => { m with physical := m.physical.withProgram 0 aliasingProgram },
    .request .reset, .request (.setGeneral 2 0xF00000000), .request (.setGeneral 3 0x8000),
    .request (.step 3)]

theorem ofDefaults_accesses_bytewise :
    let s := (ofDefaults.serveAll aliasing).2
    create {} = .ok ofDefaults ∧ (∀ x ∈ aliasing, x.KeepsSize) ∧ s.machine.OutsideIo 0x8104 ∧
      s.machine.registers.status.translates = true ∧
      s.machine.registers.reservation = some ⟨0x100, 8, 0⟩ ∧
      s.machine.verdict 0x8104 .word .write = .ok 0x104 ∧
      s.LoadsBytewise 0x8104 .word ∧ s.StoresBytewise 0x8104 .word 0x44332211 := by
  have hkeeps : ∀ x ∈ aliasing, x.KeepsSize := by
    simp only [aliasing, List.forall_mem_cons, HostAction.KeepsSize]
    exact ⟨fun m => ByteStore.size_setBytes _ _ _, trivial, trivial, trivial, trivial, by simp⟩
  have hentry : Machine.entry? (ofDefaults.serveAll aliasing).2.machine 0x8104 =
      some ⟨2, 0, 0xF, 0⟩ := by rfl
  have hout : (ofDefaults.serveAll aliasing).2.machine.OutsideIo 0x8104 := by
    refine ⟨by decide, fun _ x hx => ?_⟩
    obtain rfl := Option.some.inj (hentry.symm.trans hx)
    decide
  have hcreate : create {} = .ok ofDefaults := rfl
  obtain ⟨hloads, hstores⟩ :=
    accesses_bytewise hcreate hkeeps (w := .word) (by decide) hout 0x44332211
  exact ⟨hcreate, hkeeps, hout, by rfl, by rfl, by rfl, hloads, hstores⟩

end Session

end Processor64
