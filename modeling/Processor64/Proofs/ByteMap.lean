import Processor64.Proofs.Decision

/-!
# Memory as a map of bytes

The memory of a valid configuration is one map from addresses to bytes (`Memory.byteAt`): physical
memory from 0 on and plain I/O memory from the start of the window on, which do not meet. After any
writes and loads of images each byte is the one last written to its address (`lastWritten`). A read
finds the bytes it covers, and a request changes the bytes it covers and nothing else, or is refused
and changes nothing (`create_holdsBytes`).
-/

namespace Processor64

variable {δ : Type}

/-! ## Requests -/

/-- A request to put bytes into memory. -/
inductive StoreRequest where
  | write (p : Word) (w : Width) (v : Word)
  | load (p : Word) (image : List UInt8)

namespace StoreRequest

def command : StoreRequest → Command δ
  | write p w v => .writeMemory p w v
  | load p image => .loadPhysical p image

def start : StoreRequest → Nat
  | write p _ _ => p.toNat
  | load p _ => p.toNat

def bytes : StoreRequest → List UInt8
  | write _ w v => v.lowBytes w.bytes
  | load _ image => image

/-- The byte that is put at an address. -/
def byte? (r : StoreRequest) (b : Nat) : Option UInt8 :=
  if r.start ≤ b then r.bytes[b - r.start]? else none

/-- An image as writes of its bytes one by one. -/
def ofImage (p : Word) : List UInt8 → List StoreRequest
  | [] => []
  | b :: bs => write p .byte (BitVec.ofNat 64 b.toNat) :: ofImage (p + 1) bs

end StoreRequest

namespace Config

/-- The console takes an access. -/
def ConsoleTakes (c : Config) (p : Word) (n : Nat) : Prop :=
  c.console.enabled = true ∧ ioStart + c.console.offset ≤ p.toNat ∧
    p.toNat + n ≤ ioStart + c.console.offset + Console.size

instance (c : Config) (p : Word) (n : Nat) : Decidable (c.ConsoleTakes p n) :=
  inferInstanceAs (Decidable (_ ∧ _))

/-- An access is to bytes of memory: inside the window to plain I/O memory, unless the console
takes it, and elsewhere to physical memory. -/
def Backs (c : Config) (p : Word) (n : Nat) : Prop :=
  if p.inIoWindow then p.toNat + n ≤ ioStart + c.memory.ioSize ∧ ¬ c.ConsoleTakes p n
  else p.toNat + n ≤ c.memory.physicalSize

instance (c : Config) (p : Word) (n : Nat) : Decidable (c.Backs p n) :=
  inferInstanceAs (Decidable (if p.inIoWindow then _ else _))

/-- A request puts its bytes into memory. -/
def Accepts (c : Config) : StoreRequest → Prop
  | .write p w _ => c.Backs p w.bytes
  | .load p image => p.toNat + image.length ≤ c.memory.physicalSize

instance (c : Config) : (r : StoreRequest) → Decidable (c.Accepts r)
  | .write p w _ => inferInstanceAs (Decidable (c.Backs p w.bytes))
  | .load p image => inferInstanceAs (Decidable (p.toNat + image.length ≤ c.memory.physicalSize))

/-- A request only reaches the console. -/
def Prints (c : Config) : StoreRequest → Prop
  | .write p w _ => c.ConsoleTakes p w.bytes
  | .load _ _ => False

/-- The byte last written to an address, zero if there is none. -/
def lastWritten (c : Config) (rs : List StoreRequest) (b : Nat) : UInt8 :=
  (rs.reverse.findSome? fun r => if c.Accepts r then r.byte? b else none).getD 0

/-- The last accepted write of a byte is the one that counts. -/
theorem lastWritten_append (c : Config) (rs : List StoreRequest) (r : StoreRequest) (b : Nat) :
    c.lastWritten (rs ++ [r]) b =
      if c.Accepts r then (r.byte? b).getD (c.lastWritten rs b) else c.lastWritten rs b := by
  simp only [lastWritten, List.reverse_append, List.reverse_singleton, List.singleton_append,
    List.findSome?_cons]
  by_cases h : c.Accepts r
  · rw [if_pos h, if_pos h]
    cases r.byte? b <;> rfl
  · rw [if_neg h, if_neg h]

end Config

/-- The value that an access finds in a map of bytes: these as a number, lowest first, whose top bit
is the sign of a signed one. -/
def Word.IsValueAt (v : Word) (byte : Nat → UInt8) (p : Word) (w : Width) (signed : Bool) : Prop :=
  let n := littleEndian ((List.range w.bytes).map fun i => byte (p.toNat + i))
  if signed then v.toInt = Int.bmod n (2 ^ w.bits) else v.toNat = n

namespace Memory

/-- The byte at an address, in physical memory below the I/O window and in plain I/O memory from its
start on. -/
def byteAt (m : Memory δ) (b : Nat) : UInt8 :=
  if b < ioStart then m.physical.byte b else m.io.backing.byte (b - ioStart)

variable [Device δ]

/-- Accesses at an address find the same in two memories, and do the same to a part of them. -/
structure Alike {γ : Type} (part : Memory δ → γ) (p : Word) (m n : Memory δ) : Prop where
  read : ∀ w signed, (m.read p w signed).map (·.value) = (n.read p w signed).map (·.value)
  preview : ∀ w signed, (m.preview p w signed).map (·.value) = (n.preview p w signed).map (·.value)
  write : ∀ w v, (m.write p w v).map (part ·.after) = (n.write p w v).map (part ·.after)

/-- Accesses at an address leave a part of the memory as it is. -/
structure Spares {γ : Type} (part : Memory δ → γ) (p : Word) (m : Memory δ) : Prop where
  read : ∀ w signed r, m.read p w signed = .ok r → part r.after = part m
  preview : ∀ w signed r, m.preview p w signed = .ok r → part r.after = part m
  write : ∀ w v r, m.write p w v = .ok r → part r.after = part m

/-- Nothing outside the I/O window depends on what is in it or changes that, nor the reverse. -/
structure Apart (m : Memory δ) : Prop where
  outside : ∀ p : Word, p.inIoWindow = false → m.Spares (·.io) p ∧
    ∀ n : Memory δ, n.physical = m.physical → Alike (·.physical) p m n
  inside : ∀ p : Word, p.inIoWindow = true → m.Spares (·.physical) p ∧
    ∀ n : Memory δ, n.io = m.io → Alike (·.io) p m n
  load : ∀ p image, (∀ r, m.load p image = .ok r → r.io = m.io) ∧
    ∀ n : Memory δ, n.physical = m.physical →
      (m.load p image).map (·.physical) = (n.load p image).map (·.physical)

theorem apart (m : Memory δ) : m.Apart where
  outside p hp := by
    refine ⟨⟨?_, ?_, ?_⟩, fun n hn => ⟨?_, ?_, ?_⟩⟩
    · intro w signed r h
      rw [(read_eq_ok hp h).2]
    · intro w signed r h
      rw [after_preview h]
    · intro w v r h
      rcases write_eq_ok h with ⟨hio, -⟩ | ⟨-, -, hr, -⟩
      · simp [hp] at hio
      · exact hr
    · intro w signed
      rw [read_physical hp, read_physical hp, hn]
      cases m.physical.read p w signed <;> rfl
    · intro w signed
      rw [preview_physical hp, preview_physical hp, hn]
      cases m.physical.read p w signed <;> rfl
    · intro w v
      rw [write_physical hp, write_physical hp, hn]
      cases m.physical.write p w v <;> rfl
  inside p hp := by
    refine ⟨⟨?_, ?_, ?_⟩, fun n hn => ⟨?_, ?_, ?_⟩⟩
    · intro w signed r h
      exact physical_read h
    · intro w signed r h
      rw [after_preview h]
    · intro w v r h
      rcases write_eq_ok h with ⟨-, hr⟩ | ⟨hout, -⟩
      · exact hr
      · simp [hp] at hout
    · intro w signed
      rw [read_io hp, read_io hp, hn]
      cases m.io.read p w signed <;> rfl
    · intro w signed
      rw [preview_io hp, preview_io hp, hn]
      cases m.io.preview p w signed <;> rfl
    · intro w v
      rw [write_io hp, write_io hp, hn]
      cases m.io.write p w v <;> rfl
  load p image := by
    refine ⟨fun r h => ?_, fun n hn => ?_⟩
    · obtain ⟨s, -, rfl⟩ := exceptMap_eq_ok.mp h
      rfl
    · rw [load, load, hn]
      cases m.physical.load p image <;> rfl

end Memory

/-! ## Values -/

theorem ByteStore.bytesAt_eq_map (s : ByteStore) : ∀ (n a : Nat),
    s.bytesAt a n = (List.range n).map fun i => s.byte (a + i)
  | 0, _ => rfl
  | n + 1, a => by
    rw [bytesAt, bytesAt_eq_map s n, List.range_succ_eq_map, List.map_cons, List.map_map]
    simp only [Nat.add_zero, Function.comp_def, Nat.add_assoc, Nat.add_comm 1]

theorem littleEndian_lt : ∀ bs : List UInt8, littleEndian bs < 256 ^ bs.length
  | [] => Nat.one_pos
  | b :: bs => by
    have hb := b.toNat_lt
    have ih := littleEndian_lt bs
    rw [littleEndian, List.length_cons, Nat.pow_succ]
    omega

/-- The bytes of an access fit in a word. -/
theorem Width.toNat_littleEndian (w : Width) (byte : Nat → UInt8) :
    (BitVec.ofNat 64 (littleEndian ((List.range w.bytes).map byte))).toNat =
      littleEndian ((List.range w.bytes).map byte) := by
  have hlt := littleEndian_lt ((List.range w.bytes).map byte)
  rw [List.length_map, List.length_range] at hlt
  have hword : 256 ^ w.bytes ≤ 2 ^ 64 := by cases w <;> decide
  rw [BitVec.toNat_ofNat, Nat.mod_eq_of_lt (Nat.lt_of_lt_of_le hlt hword)]

/-- The bytes that an access covers, widened, are its value. -/
theorem Width.isValueAt_extend {byte : Nat → UInt8} {p v : Word} {w : Width} (signed : Bool)
    (hv : v.toNat = littleEndian ((List.range w.bytes).map fun i => byte (p.toNat + i))) :
    (w.extend v signed).IsValueAt byte p w signed := by
  have hlt := littleEndian_lt ((List.range w.bytes).map fun i => byte (p.toNat + i))
  rw [← hv, List.length_map, List.length_range] at hlt
  simp only [Word.IsValueAt, ← hv]
  cases signed
  · have hmod : v.toNat % 2 ^ w.bits = v.toNat := by
      apply Nat.mod_eq_of_lt
      rwa [bits, Nat.pow_mul]
    have hword : v.toNat % 2 ^ 64 = v.toNat := Nat.mod_eq_of_lt v.isLt
    show ((v.setWidth w.bits).setWidth 64).toNat = v.toNat
    rw [BitVec.toNat_setWidth, BitVec.toNat_setWidth, hmod, hword]
  · have hbits : w.bits ≤ 64 := by cases w <;> decide
    simp [extend, BitVec.toInt_signExtend_of_le, hbits, BitVec.toInt_setWidth]

/-! ## The memory of a configuration -/

/-- The address of a console that is on is a sum that does not overflow. -/
theorem Config.Fits.toNat_base {c : Config} (h : c.Fits) (he : c.console.enabled = true) :
    c.console.base.toNat = ioStart + c.console.offset := by
  have hconsole := h.console he
  have hio := h.ioSize
  rw [ConsoleConfig.base, BitVec.toNat_ofNat, Nat.mod_eq_of_lt]
  simp only [ioStart, ioWindowSize, ioLimit] at hio ⊢
  omega

/-- What no request changes: the sizes, and that there is a console at its place or nothing. -/
structure Memory.IsOf (m : Memory δ) (c : Config) : Prop where
  physicalSize : m.physical.size = c.memory.physicalSize
  ioSize : m.io.backing.size = c.memory.ioSize
  enabled : m.io.devices ≠ [] ↔ c.console.enabled = true
  consoles : ∀ d ∈ m.io.devices, ∃ k, d = .console k ∧ k.base = c.console.base

namespace Memory

theorem isOf_create (c : Config) : (create c : Memory δ).IsOf c := by
  cases he : c.console.enabled <;> constructor <;>
    simp [create, he, IoWindow.create, IoWindow.attach, ByteStore.zeros, Console.create]

/-- A new memory is zero everywhere. -/
theorem byteAt_create (c : Config) (b : Nat) : (create c : Memory δ).byteAt b = 0 := by
  cases he : c.console.enabled <;>
    simp [byteAt, create, he, IoWindow.create, IoWindow.attach, ByteStore.zeros, ByteStore.byte]

variable {m : Memory δ} {c : Config} {p v : Word} {w : Width}

namespace IsOf

variable [Device δ]

theorem contains_iff (h : m.IsOf c) (hc : c.Fits) (n : Nat) :
    (∃ d ∈ m.io.devices, Device.Contains d p.toNat n) ↔ c.ConsoleTakes p n := by
  have hbase := hc.toNat_base
  constructor
  · rintro ⟨d, hd, hcontains⟩
    obtain ⟨k, rfl, hk⟩ := h.consoles d hd
    have he := h.enabled.mp (List.ne_nil_of_mem hd)
    obtain ⟨hlo, hhi⟩ := hcontains
    refine ⟨he, ?_, ?_⟩
    · rw [← hbase he, ← hk]
      exact hlo
    · rw [← hbase he, ← hk]
      exact hhi
  · rintro ⟨he, hlo, hhi⟩
    obtain ⟨d, hd⟩ := List.exists_mem_of_ne_nil _ (h.enabled.mpr he)
    obtain ⟨k, rfl, hk⟩ := h.consoles d hd
    refine ⟨_, hd, ?_, ?_⟩
    · show k.base.toNat ≤ p.toNat
      rwa [hk, hbase he]
    · show p.toNat + n ≤ k.base.toNat + Console.size
      rwa [hk, hbase he]

/-- An access inside the window goes to the console, else to the plain memory that it covers. -/
theorem target?_cases (h : m.IsOf c) (hc : c.Fits) (hp : p.inIoWindow = true) :
    c.ConsoleTakes p w.bytes ∧ (∃ place, m.io.target? p w = some (.device place)) ∨
    c.Backs p w.bytes ∧ m.io.target? p w = some (.backing (p.toNat - ioStart)) ∨
    ¬ c.ConsoleTakes p w.bytes ∧ ¬ c.Backs p w.bytes ∧ m.io.target? p w = none := by
  have hlt : p.toNat + w.bytes < 2 ^ 33 := lt_of_inIoWindow hp
  have hstart := le_of_inIoWindow hp
  have hfind : m.io.devices.findFinIdx? (Device.covers · p w.bytes) = none ↔
      ¬ c.ConsoleTakes p w.bytes := by
    rw [← h.contains_iff hc]
    simp only [List.findFinIdx?_eq_none_iff, Device.covers_iff _ hlt, not_exists, not_and]
  have hbacks : m.io.backs p w.bytes = true ↔ p.toNat + w.bytes ≤ ioStart + c.memory.ioSize := by
    simp only [IoWindow.backs, ByteStore.covers, h.ioSize, Bool.and_eq_true, decide_eq_true_eq]
    omega
  unfold IoWindow.target?
  rcases hf : m.io.devices.findFinIdx? (Device.covers · p w.bytes) with _ | place
  · have hconsole := hfind.mp hf
    by_cases hb : p.toNat + w.bytes ≤ ioStart + c.memory.ioSize
    · refine .inr (.inl ⟨?_, ?_⟩)
      · rw [Config.Backs, if_pos hp]
        exact ⟨hb, hconsole⟩
      · simp only [hbacks.mpr hb, if_true]
    · refine .inr (.inr ⟨hconsole, ?_, ?_⟩)
      · rw [Config.Backs, if_pos hp]
        exact fun hand => hb hand.1
      · simp only [Bool.not_eq_true _ ▸ hbacks.not.mpr hb, Bool.false_eq_true, if_false]
  · refine .inl ⟨?_, place, rfl⟩
    by_contra hconsole
    rw [hfind.mpr hconsole] at hf
    cases hf

/-- What the console takes goes to it, inside the window. -/
theorem target?_of_consoleTakes (h : m.IsOf c) (hc : c.Fits)
    (hconsole : c.ConsoleTakes p w.bytes) :
    p.inIoWindow = true ∧ ∃ place, m.io.target? p w = some (.device place) := by
  have hp : p.inIoWindow = true := by
    obtain ⟨he, hlo, hhi⟩ := hconsole
    have hw : 1 ≤ w.bytes := by cases w <;> decide
    have hio := hc.ioSize
    have hfits := hc.console he
    simp only [Word.inIoWindow, Bool.and_eq_true, decide_eq_true_eq]
    simp only [ioStart, ioWindowSize, ioLimit] at *
    omega
  refine ⟨hp, ?_⟩
  rcases h.target?_cases hc hp with ⟨-, ht⟩ | ⟨hb, -⟩ | ⟨hnot, -⟩
  · exact ht
  · rw [Config.Backs, if_pos hp] at hb
    exact absurd hconsole hb.2
  · exact absurd hconsole hnot

theorem target?_of_backs (h : m.IsOf c) (hc : c.Fits) (hp : p.inIoWindow = true)
    (hb : c.Backs p w.bytes) : m.io.target? p w = some (.backing (p.toNat - ioStart)) := by
  rcases h.target?_cases hc hp with ⟨hconsole, -⟩ | ⟨-, ht⟩ | ⟨-, hback, -⟩
  · rw [Config.Backs, if_pos hp] at hb
    exact absurd hconsole hb.2
  · exact ht
  · exact absurd hb hback

theorem target?_of_not_backs (h : m.IsOf c) (hc : c.Fits) (hp : p.inIoWindow = true)
    (hconsole : ¬ c.ConsoleTakes p w.bytes) (hb : ¬ c.Backs p w.bytes) :
    m.io.target? p w = none := by
  rcases h.target?_cases hc hp with ⟨htakes, -⟩ | ⟨hback, -⟩ | ⟨-, -, ht⟩
  · exact absurd htakes hconsole
  · exact absurd hback hb
  · exact ht

end IsOf

/-! ## Reads -/

/-- The bytes that an access covers, as a word. -/
def valueAt (m : Memory δ) (p : Word) (w : Width) : Word :=
  BitVec.ofNat 64 (littleEndian ((List.range w.bytes).map fun i => m.byteAt (p.toNat + i)))

theorem toNat_valueAt (m : Memory δ) (p : Word) (w : Width) : (m.valueAt p w).toNat =
    littleEndian ((List.range w.bytes).map fun i => m.byteAt (p.toNat + i)) :=
  w.toNat_littleEndian _

theorem raw_physical (h : p.toNat + w.bytes ≤ ioStart) :
    m.physical.raw p.toNat w = m.valueAt p w := by
  rw [ByteStore.raw, valueAt, ByteStore.bytesAt_eq_map]
  congr 2
  apply List.map_congr_left
  intro i hi
  rw [byteAt, if_pos (by have := List.mem_range.mp hi; omega)]

theorem raw_backing (h : ioStart ≤ p.toNat) :
    m.io.backing.raw (p.toNat - ioStart) w = m.valueAt p w := by
  rw [ByteStore.raw, valueAt, ByteStore.bytesAt_eq_map]
  congr 2
  apply List.map_congr_left
  intro i _
  rw [byteAt, if_neg (by omega), Nat.sub_add_comm h]

namespace IsOf

variable [Device δ]

theorem read_of_backs (h : m.IsOf c) (hc : c.Fits) (hb : c.Backs p w.bytes) (signed : Bool) :
    m.read p w signed = .ok ⟨w.extend (m.valueAt p w) signed, m, []⟩ ∧
      m.preview p w signed = .ok ⟨w.extend (m.valueAt p w) signed, m, []⟩ := by
  rcases hp : p.inIoWindow
  · simp only [Config.Backs, hp, Bool.false_eq_true, if_false] at hb
    have hstart := Nat.le_trans hb hc.physicalSize
    rw [read_physical hp, preview_physical hp, ByteStore.read_of_le (by rwa [h.physicalSize]),
      raw_physical hstart]
    exact ⟨rfl, rfl⟩
  · rw [read_io hp, preview_io hp, IoWindow.read, IoWindow.preview, h.target?_of_backs hc hp hb,
      ← raw_backing (le_of_inIoWindow hp)]
    exact ⟨rfl, rfl⟩

/-- Where nothing answers, a read traps and so does its preview. -/
theorem read_of_not_backs (h : m.IsOf c) (hc : c.Fits) (hconsole : ¬ c.ConsoleTakes p w.bytes)
    (hb : ¬ c.Backs p w.bytes) (signed : Bool) :
    ∃ t, m.read p w signed = .error t ∧ m.preview p w signed = .error t := by
  rcases hp : p.inIoWindow
  · simp only [Config.Backs, hp, Bool.false_eq_true, if_false, ← h.physicalSize] at hb
    refine ⟨.outsidePhysical p w, ?_⟩
    rw [read_physical hp, preview_physical hp, ByteStore.read, ByteStore.covers,
      decide_eq_false hb]
    exact ⟨rfl, rfl⟩
  · refine ⟨.unclaimedIo p w, ?_⟩
    rw [read_io hp, preview_io hp, IoWindow.read, IoWindow.preview,
      h.target?_of_not_backs hc hp hconsole hb]
    exact ⟨rfl, rfl⟩

end IsOf

/-! ## Writes and images -/

/-- A request puts its bytes into memory and changes nothing else. -/
structure Puts (m : Memory δ) (r : StoreRequest) (n : Memory δ) : Prop where
  bytes : ∀ b, n.byteAt b = (r.byte? b).getD (m.byteAt b)
  physicalSize : n.physical.size = m.physical.size
  ioSize : n.io.backing.size = m.io.backing.size
  devices : n.io.devices = m.io.devices

theorem IsOf.of_puts {r : StoreRequest} {n : Memory δ} (h : m.IsOf c) (hr : m.Puts r n) :
    n.IsOf c where
  physicalSize := hr.physicalSize.trans h.physicalSize
  ioSize := hr.ioSize.trans h.ioSize
  enabled := by rw [hr.devices, h.enabled]
  consoles := by
    rw [hr.devices]
    exact h.consoles

theorem puts_physical {r : StoreRequest} (hr : r.start + r.bytes.length ≤ m.physical.size)
    (hm : m.physical.size ≤ ioStart) :
    m.Puts r { m with physical := m.physical.setBytes r.start r.bytes } := by
  refine ⟨fun b => ?_, ByteStore.size_setBytes _ _ _, rfl, rfl⟩
  -- physical memory ends below the window, so no byte that is put lies in it
  by_cases hb : b < ioStart
  · simp only [byteAt, if_pos hb, ByteStore.byte_setBytes _ _ _ b hr, StoreRequest.byte?]
    split <;> rfl
  · have hnone : r.byte? b = none := by
      rw [StoreRequest.byte?, if_pos (by omega), List.getElem?_eq_none (by omega)]
    simp only [byteAt, if_neg hb, hnone, Option.getD_none]

theorem puts_backing {r : StoreRequest} (hstart : ioStart ≤ r.start)
    (hr : r.start + r.bytes.length ≤ ioStart + m.io.backing.size) :
    m.Puts r { m with io.backing := m.io.backing.setBytes (r.start - ioStart) r.bytes } := by
  refine ⟨fun b => ?_, rfl, ByteStore.size_setBytes _ _ _, rfl⟩
  by_cases hb : b < ioStart
  · have hnone : r.byte? b = none := by
      rw [StoreRequest.byte?, if_neg (by omega)]
    simp only [byteAt, if_pos hb, hnone, Option.getD_none]
  · simp only [byteAt, if_neg hb, ByteStore.byte_setBytes _ _ _ (b - ioStart)
      (show r.start - ioStart + r.bytes.length ≤ m.io.backing.size by omega), StoreRequest.byte?]
    by_cases hle : r.start ≤ b
    · rw [if_pos hle, if_pos (Nat.sub_le_sub_right hle _), Nat.sub_sub_sub_cancel_right hstart]
    · rw [if_neg hle, if_neg (by omega)]
      rfl

namespace IsOf

theorem load_of_accepts (h : m.IsOf c) (hc : c.Fits) {image : List UInt8}
    (hr : c.Accepts (.load p image)) :
    m.load p image = .ok { m with physical := m.physical.setBytes p.toNat image } ∧
      m.Puts (.load p image) { m with physical := m.physical.setBytes p.toNat image } := by
  have hle : p.toNat + image.length ≤ m.physical.size := h.physicalSize ▸ hr
  refine ⟨?_, puts_physical hle (h.physicalSize ▸ hc.physicalSize)⟩
  rw [load, ByteStore.load, ByteStore.covers, decide_eq_true hle]
  rfl

/-- An image that does not fit is refused. -/
theorem load_of_not_accepts (h : m.IsOf c) {image : List UInt8}
    (hr : ¬ c.Accepts (.load p image)) : ∃ t, m.load p image = .error t := by
  have hlt : ¬ p.toNat + image.length ≤ m.physical.size := h.physicalSize ▸ hr
  refine ⟨.outsidePhysical p .byte, ?_⟩
  rw [load, ByteStore.load, ByteStore.covers, decide_eq_false hlt]
  rfl

variable [Device δ]

theorem write_of_backs (h : m.IsOf c) (hc : c.Fits) (hb : c.Backs p w.bytes) (v : Word) :
    ∃ n, m.write p w v = .ok ⟨(), n, []⟩ ∧ m.Puts (.write p w v) n := by
  have hlength : (v.lowBytes w.bytes).length = w.bytes := Word.length_lowBytes _ _
  rcases hp : p.inIoWindow
  · simp only [Config.Backs, hp, Bool.false_eq_true, if_false, ← h.physicalSize] at hb
    refine ⟨_, ?_, puts_physical (r := .write p w v) ?_ (h.physicalSize ▸ hc.physicalSize)⟩
    · rw [write_physical hp, ByteStore.write, ByteStore.covers, decide_eq_true hb]
      rfl
    · show p.toNat + (v.lowBytes w.bytes).length ≤ m.physical.size
      rwa [hlength]
  · refine ⟨_, ?_, puts_backing (r := .write p w v) (le_of_inIoWindow hp) ?_⟩
    · rw [write_io hp, IoWindow.write, h.target?_of_backs hc hp hb]
      rfl
    · rw [Config.Backs, if_pos hp] at hb
      show p.toNat + (v.lowBytes w.bytes).length ≤ ioStart + m.io.backing.size
      rw [hlength, h.ioSize]
      exact hb.1

/-- Where nothing answers, a write traps. -/
theorem write_of_not_backs (h : m.IsOf c) (hc : c.Fits) (hconsole : ¬ c.ConsoleTakes p w.bytes)
    (hb : ¬ c.Backs p w.bytes) (v : Word) : ∃ t, m.write p w v = .error t := by
  rcases hp : p.inIoWindow
  · simp only [Config.Backs, hp, Bool.false_eq_true, if_false, ← h.physicalSize] at hb
    refine ⟨.outsidePhysical p w, ?_⟩
    rw [write_physical hp, ByteStore.write, ByteStore.covers, decide_eq_false hb]
    rfl
  · refine ⟨.unclaimedIo p w, ?_⟩
    rw [write_io hp, IoWindow.write, h.target?_of_not_backs hc hp hconsole hb]
    rfl

/-- A byte that is written to physical memory is an image of one byte. -/
theorem write_byte (h : m.IsOf c) (hc : c.Fits) {b : UInt8} (hr : c.Accepts (.load p [b])) :
    m.write p .byte (BitVec.ofNat 64 b.toNat) =
      .ok ⟨(), { m with physical := m.physical.setBytes p.toNat [b] }, []⟩ := by
  have hsize := hc.physicalSize
  have hle : p.toNat + 1 ≤ c.memory.physicalSize := hr
  have hp : p.inIoWindow = false := by
    simp only [Word.inIoWindow, Bool.and_eq_false_iff, decide_eq_false_iff_not]
    omega
  have hlow : Word.lowBytes (BitVec.ofNat 64 b.toNat) 1 = [b] := by
    have hb := b.toNat_lt
    simp [Word.lowBytes, Nat.mod_eq_of_lt (show b.toNat < 18446744073709551616 by omega)]
  rw [write_physical hp, ByteStore.write, ByteStore.covers, decide_eq_true (h.physicalSize ▸ hle),
    Width.bytes, hlow]
  rfl

/-- A write that the console takes changes the console alone. -/
theorem write_of_consoleTakes (h : m.IsOf c) (hc : c.Fits) (hconsole : c.ConsoleTakes p w.bytes)
    (v : Word) : ∃ r, m.write p w v = .ok r ∧ (∀ b, r.after.byteAt b = m.byteAt b) ∧
      r.after.IsOf c := by
  obtain ⟨hp, place, ht⟩ := h.target?_of_consoleTakes hc hconsole
  obtain ⟨k, hk, hbase⟩ := h.consoles _ (List.getElem_mem place.isLt)
  refine ⟨_, by rw [write_io hp, IoWindow.write, ht]; rfl, fun b => rfl, h.physicalSize, h.ioSize,
    ?_, ?_⟩
  · show m.io.devices.set place _ ≠ [] ↔ _
    rw [Ne, List.set_eq_nil_iff, ← h.enabled]
  · intro d hd
    rcases List.mem_or_eq_of_mem_set hd with hd | rfl
    · exact h.consoles d hd
    · refine ⟨k.write (p - k.base) w (w.truncate v), ?_, ?_⟩
      · simp only [Fin.getElem_fin, hk, IoWindow.transaction]
        rfl
      · rw [Console.write]
        split <;> exact hbase

end IsOf

end Memory

namespace Session

variable {s : Session δ} {c : Config} {byte : Nat → UInt8}

/-- The same session with another memory. -/
def withMemory (s : Session δ) (m : Memory δ) : Session δ :=
  s.mapMachine fun n => { n with memory := m }

theorem afterReply_eq_withMemory {α : Type} (s : Session δ) (v : α) (m : Memory δ) :
    s.afterReply ⟨v, m, []⟩ = s.withMemory m := by
  simp [afterReply, withMemory, emit, mapMachine]

variable [Device δ]

/-- The requests one after the other. -/
def performAll (s : Session δ) (rs : List StoreRequest) : Session δ :=
  rs.foldl (fun s r => (s.perform r.command).2) s

/-- The memory of the session is the map of bytes: what is read there and not from the console are
bytes of it, a request changes those that it covers or is refused, and a load is the writes of its
bytes. -/
structure HoldsBytes (s : Session δ) (c : Config) (byte : Nat → UInt8) : Prop where
  bytes : ∀ b, s.machine.memory.byteAt b = byte b
  read : ∀ p w signed, c.Backs p w.bytes → ∃ v : Word, v.IsValueAt byte p w signed ∧
    s.perform (.readMemory p w signed) = (.word v, s) ∧
    s.perform (.previewMemory p w signed) = (.word v, s)
  peek : ∀ p w, ioStart ≤ p.toNat → p.toNat + w.bytes ≤ ioStart + c.memory.ioSize →
    ∃ v : Word, v.IsValueAt byte p w false ∧ s.machine.memory.io.peekBacking p w = some v
  console : ∀ p w, c.ConsoleTakes p w.bytes →
    p.inIoWindow = true ∧ ∃ place, s.machine.memory.io.target? p w = some (.device place)
  unread : ∀ p w signed, ¬ c.Backs p w.bytes → ¬ c.ConsoleTakes p w.bytes →
    ∃ t, s.perform (.readMemory p w signed) = (.trapped t, s) ∧
      s.perform (.previewMemory p w signed) = (.trapped t, s)
  accepted : ∀ r, c.Accepts r → ∃ m, s.perform r.command = (.done, s.withMemory m) ∧
    s.machine.memory.Puts r m
  printed : ∀ r, c.Prints r → (s.perform r.command).1 = .done ∧
    ∀ b, (s.perform r.command).2.machine.memory.byteAt b = byte b
  refused : ∀ r, ¬ c.Accepts r → ¬ c.Prints r → ∃ t, s.perform r.command = (.trapped t, s)
  bytewise : ∀ p image, c.Accepts (.load p image) →
    s.performAll (StoreRequest.ofImage p image) = (s.perform (.loadPhysical p image)).2
  apart : s.machine.memory.Apart

section Perform

variable {p v : Word} {w : Width} {signed : Bool} {t : Trap}

theorem perform_readMemory : s.perform (.readMemory p w signed) =
    s.answer (Exec.absorb (s.machine.memory.read p w signed)) .word := rfl

theorem perform_previewMemory : s.perform (.previewMemory p w signed) =
    s.answer (Exec.absorb (s.machine.memory.preview p w signed)) .word := rfl

theorem perform_writeMemory : s.perform (.writeMemory p w v) =
    s.answer (Exec.absorb (s.machine.memory.write p w v)) fun _ => .done := rfl

end Perform

/-- A request puts its bytes, or only reaches the console, or is refused. -/
theorem perform_request (h : s.machine.memory.IsOf c) (hc : c.Fits) (r : StoreRequest) :
    (c.Accepts r → ∃ m, s.perform r.command = (.done, s.withMemory m) ∧
      s.machine.memory.Puts r m) ∧
    (c.Prints r → (s.perform r.command).1 = .done ∧
      (s.perform r.command).2.machine.memory.IsOf c ∧
      ∀ b, (s.perform r.command).2.machine.memory.byteAt b = s.machine.memory.byteAt b) ∧
    (¬ c.Accepts r → ¬ c.Prints r → ∃ t, s.perform r.command = (.trapped t, s)) := by
  cases r with
  | write p w v =>
    refine ⟨fun hr => ?_, fun hr => ?_, fun hr hp => ?_⟩
    · obtain ⟨n, hn, hputs⟩ := h.write_of_backs hc hr v
      refine ⟨n, ?_, hputs⟩
      rw [StoreRequest.command, perform_writeMemory, hn, ← afterReply_eq_withMemory s ()]
      rfl
    · obtain ⟨reply, hw, hbytes, hof⟩ := h.write_of_consoleTakes hc hr v
      rw [StoreRequest.command, perform_writeMemory, hw]
      exact ⟨rfl, hof, hbytes⟩
    · obtain ⟨t, ht⟩ := h.write_of_not_backs hc hp hr v
      rw [StoreRequest.command, perform_writeMemory, ht]
      exact ⟨t, rfl⟩
  | load p image =>
    refine ⟨fun hr => ?_, fun hr => hr.elim, fun hr _ => ?_⟩
    · obtain ⟨hload, hputs⟩ := h.load_of_accepts hc hr
      refine ⟨_, ?_, hputs⟩
      simp only [StoreRequest.command, perform, hload]
      rfl
    · obtain ⟨t, ht⟩ := h.load_of_not_accepts hr
      refine ⟨t, ?_⟩
      simp only [StoreRequest.command, perform, ht]

/-- The writes of an image, byte by byte, leave what its load leaves. -/
theorem performAll_ofImage (hc : c.Fits) : ∀ (image : List UInt8) {s : Session δ} {p : Word},
    s.machine.memory.IsOf c → c.Accepts (.load p image) →
      s.performAll (StoreRequest.ofImage p image) = s.withMemory
        { s.machine.memory with physical := s.machine.memory.physical.setBytes p.toNat image }
  | [], s, p, _, _ => rfl
  | b :: bs, s, p, h, hr => by
    -- the first write loads an image of one byte, and the others start at the next address
    have hsize := hc.physicalSize
    have hle : p.toNat + (bs.length + 1) ≤ c.memory.physicalSize := hr
    have hnext : (p + 1).toNat = p.toNat + 1 := by
      simp only [ioStart] at hsize
      rw [BitVec.toNat_add, show (1 : Word).toNat = 1 from rfl, Nat.mod_eq_of_lt (by omega)]
    have hbyte : c.Accepts (.load p [b]) := by
      show p.toNat + 1 ≤ c.memory.physicalSize
      omega
    have hbytes : c.Accepts (.load (p + 1) bs) := by
      show (p + 1).toNat + bs.length ≤ c.memory.physicalSize
      omega
    have hfirst : s.perform (.writeMemory p .byte (BitVec.ofNat 64 b.toNat)) = (.done, s.withMemory
        { s.machine.memory with physical := s.machine.memory.physical.setBytes p.toNat [b] }) := by
      rw [perform_writeMemory, h.write_byte hc hbyte, ← afterReply_eq_withMemory s ()]
      rfl
    have hrest := performAll_ofImage hc bs (s := s.withMemory
      { s.machine.memory with physical := s.machine.memory.physical.setBytes p.toNat [b] })
      (h.of_puts (h.load_of_accepts hc hbyte).2) hbytes
    rw [hnext] at hrest
    show (s.perform (.writeMemory p .byte _)).2.performAll (StoreRequest.ofImage (p + 1) bs) = _
    rw [hfirst, hrest]
    rfl

/-- A session with the memory of a configuration is a map of bytes. -/
theorem holdsBytes_of_isOf (h : s.machine.memory.IsOf c) (hc : c.Fits)
    (hbytes : ∀ b, s.machine.memory.byteAt b = byte b) : s.HoldsBytes c byte where
  bytes := hbytes
  read p w signed hb := by
    obtain ⟨hread, hpreview⟩ := h.read_of_backs hc hb signed
    have hvalue := Width.isValueAt_extend signed (s.machine.memory.toNat_valueAt p w)
    rw [funext hbytes] at hvalue
    refine ⟨_, hvalue, ?_, ?_⟩
    · rw [perform_readMemory, hread]
      exact congrArg (Prod.mk _) (afterReply_eq_withMemory _ _ _)
    · rw [perform_previewMemory, hpreview]
      exact congrArg (Prod.mk _) (afterReply_eq_withMemory _ _ _)
  peek p w hlo hhi := by
    refine ⟨s.machine.memory.valueAt p w, ?_, ?_⟩
    · rw [← funext hbytes]
      exact s.machine.memory.toNat_valueAt p w
    · have hcovers : p.toNat - ioStart + w.bytes ≤ s.machine.memory.io.backing.size := by
        rw [h.ioSize]
        omega
      rw [IoWindow.peekBacking, IoWindow.backs, ByteStore.covers, decide_eq_true hlo,
        decide_eq_true hcovers, Memory.raw_backing hlo]
      rfl
  console p w hconsole := h.target?_of_consoleTakes hc hconsole
  unread p w signed hb hconsole := by
    obtain ⟨t, hread, hpreview⟩ := h.read_of_not_backs hc hconsole hb signed
    refine ⟨t, ?_, ?_⟩
    · rw [perform_readMemory, hread]
      rfl
    · rw [perform_previewMemory, hpreview]
      rfl
  accepted r hr := (perform_request h hc r).1 hr
  printed r hr := by
    obtain ⟨hdone, -, hsame⟩ := (perform_request h hc r).2.1 hr
    exact ⟨hdone, fun b => (hsame b).trans (hbytes b)⟩
  refused r hr hp := (perform_request h hc r).2.2 hr hp
  bytewise p image hr := by
    rw [performAll_ofImage hc image h hr]
    simp only [perform, (h.load_of_accepts hc hr).1]
    rfl
  apart := s.machine.memory.apart

/-- What the requests so far have made of the bytes, the next request continues. -/
theorem performAll_bytes (hc : c.Fits) : ∀ (rs : List StoreRequest) {past : List StoreRequest}
    {s : Session δ}, s.machine.memory.IsOf c →
      (∀ b, s.machine.memory.byteAt b = c.lastWritten past b) →
      (s.performAll rs).machine.memory.IsOf c ∧
        ∀ b, (s.performAll rs).machine.memory.byteAt b = c.lastWritten (past ++ rs) b
  | [], past, s, h, hbytes => by
    rw [List.append_nil]
    exact ⟨h, hbytes⟩
  | r :: rs, past, s, h, hbytes => by
    have hstep : (s.perform r.command).2.machine.memory.IsOf c ∧
        ∀ b, (s.perform r.command).2.machine.memory.byteAt b = c.lastWritten (past ++ [r]) b := by
      obtain ⟨haccepts, hprints, hrefused⟩ := perform_request h hc r
      -- only a request that is accepted counts as a write, and only it changes a byte
      by_cases hr : c.Accepts r
      · obtain ⟨m, hm, hputs⟩ := haccepts hr
        rw [hm]
        refine ⟨h.of_puts hputs, fun b => ?_⟩
        rw [Config.lastWritten_append, if_pos hr, ← hbytes]
        exact hputs.bytes b
      · simp only [Config.lastWritten_append, if_neg hr]
        by_cases hp : c.Prints r
        · obtain ⟨-, hof, hsame⟩ := hprints hp
          exact ⟨hof, fun b => (hsame b).trans (hbytes b)⟩
        · obtain ⟨t, ht⟩ := hrefused hr hp
          rw [ht]
          exact ⟨h, hbytes⟩
    have hrest := performAll_bytes hc rs hstep.1 hstep.2
    rwa [List.append_assoc] at hrest

/-- After any writes and loads of images to a new memory, each byte is the one last written. -/
theorem performAll_holdsBytes (h : create c = .ok s) (rs : List StoreRequest) :
    (s.performAll rs).HoldsBytes c (c.lastWritten rs) := by
  obtain ⟨hfault, hmachine⟩ := create_eq_ok h
  have hc := Config.fits_of_fault? hfault
  have hmemory : s.machine.memory = .create c := by
    rw [hmachine]
    rfl
  have hzero : ∀ b, s.machine.memory.byteAt b = c.lastWritten [] b := fun b => by
    rw [hmemory]
    exact Memory.byteAt_create c b
  obtain ⟨hof, hbytes⟩ := performAll_bytes hc rs (hmemory ▸ Memory.isOf_create c) hzero
  exact holdsBytes_of_isOf hof hc hbytes

/-- A new machine with a console and a megabyte of memory. -/
def ofDefaults : Session Empty where
  machine := .create {}
  log := #[.deviceAttached "CONSOLE" 0xF0001000 8]

/-- A write that begins before the console goes to plain memory, an image fills the last two bytes
of physical memory, and a misaligned write replaces the first of them. -/
def straddling : List StoreRequest :=
  [.write 0xF0000FFC .double 0x8182838485868788, .load 0xFFFFE [0xAA, 0xBB],
    .write 0xFFFFD .half 0x1234, .write 0xFFFFF .half 0x5678]

theorem ofDefaults_holdsBytes :
    (ofDefaults.performAll straddling).HoldsBytes {} (Config.lastWritten {} straddling) ∧
    (List.range 4).map (fun i => Config.lastWritten {} straddling (0xFFFFC + i)) =
      [0, 0x34, 0x12, 0xBB] ∧
    (List.range 4).map (fun i => Config.lastWritten {} straddling (0xF0000FFF + i)) =
      [0x85, 0x84, 0x83, 0x82] :=
  ⟨performAll_holdsBytes rfl straddling, by decide, by decide⟩

end Session

end Processor64
