import Mathlib.Algebra.GroupWithZero.Nat
import Processor64.Memory

/-!
# Bytes and accesses

A run of bytes that is set in a store is there afterwards and nothing else has changed
(`byte_setBytes`); an access to physical memory depends on the bytes it covers and no others
(`read_congr`). A read never changes physical memory (`physical_read`) or the store of the I/O
window (`backing_read`). A write sets the low bytes of the value in the one of the two that has its
address (`byte_write`, `byte_backing_write`). Where all devices are consoles, a read that changes
memory takes a byte of input and answers with it (`read_consoles`).
-/

namespace Processor64

/-- In a valid configuration no region reaches into another, and the console lies in its own. -/
structure Config.Fits (c : Config) : Prop where
  physicalSize : c.memory.physicalSize ≤ ioStart
  ioSize : c.memory.ioSize ≤ ioWindowSize
  console : c.console.enabled = true → c.console.offset + Console.size ≤ c.memory.ioSize

theorem Config.fits_of_fault? {c : Config} (h : c.fault? = none) : c.Fits := by
  simp only [fault?] at h
  repeat' split at h
  all_goals cases h
  rename_i hphysical hio _ hconsole
  have hio := Nat.le_of_not_lt hio
  exact ⟨Nat.le_of_not_lt hphysical, hio,
    fun he => Nat.le_of_not_lt fun hlt => hconsole ⟨he, (misplaced_iff hio).mpr hlt⟩⟩

/-- The byte of a word at a place, the lowest first. -/
def Word.byte (v : Word) (i : Nat) : UInt8 := UInt8.ofNat (v.toNat / 256 ^ i)

theorem Word.length_lowBytes : ∀ (n : Nat) (v : Word), (v.lowBytes n).length = n
  | 0, _ => rfl
  | n + 1, v => by simp [lowBytes, length_lowBytes n]

theorem Word.getElem?_lowBytes : ∀ (n : Nat) (v : Word) {i : Nat}, i < n →
    (v.lowBytes n)[i]? = some (v.byte i)
  | n + 1, v, 0, _ => by simp [lowBytes, byte]
  | n + 1, v, i + 1, h => by
    rw [lowBytes, List.getElem?_cons_succ, getElem?_lowBytes n _ (by omega)]
    simp only [byte, BitVec.toNat_ushiftRight, Nat.shiftRight_eq_div_pow, Nat.pow_succ,
      Nat.div_div_eq_div_mul, Nat.mul_comm]

namespace ByteStore

@[simp]
theorem size_setBytes : ∀ (bs : List UInt8) (s : ByteStore) (a : Nat),
    (s.setBytes a bs).size = s.size
  | [], _, _ => rfl
  | b :: bs, s, a => by rw [setBytes, size_setBytes bs, size_setByte]

theorem byte_setBytes : ∀ (bs : List UInt8) (s : ByteStore) (a b : Nat),
    a + bs.length ≤ s.size →
      (s.setBytes a bs).byte b = if a ≤ b then bs[b - a]?.getD (s.byte b) else s.byte b
  | [], s, a, b, _ => by simp [setBytes]
  | v :: bs, s, a, b, h => by
    simp only [List.length_cons] at h
    rw [setBytes, byte_setBytes bs _ _ _ (by rw [size_setByte]; omega), byte_setByte]
    rcases Nat.lt_trichotomy a b with hab | rfl | hab
    · obtain ⟨i, rfl⟩ : ∃ i, b = a + 1 + i := ⟨b - (a + 1), by omega⟩
      rw [if_pos (show a + 1 ≤ a + 1 + i by omega), if_neg (fun hb => by omega),
        if_pos (show a ≤ a + 1 + i by omega), show a + 1 + i - a = i + 1 by omega,
        Nat.add_sub_cancel_left, List.getElem?_cons_succ]
    · rw [if_neg (by omega), if_pos ⟨rfl, by omega⟩, if_pos (Nat.le_refl a)]
      simp
    · rw [if_neg (by omega), if_neg (fun hb => by omega), if_neg (by omega)]

/-- A value that is set is there afterwards, and all other bytes are as before. -/
theorem byte_setBytes_lowBytes {s : ByteStore} {a n : Nat} (v : Word) (b : Nat)
    (h : a + n ≤ s.size) : (s.setBytes a (v.lowBytes n)).byte b =
      if a ≤ b ∧ b < a + n then v.byte (b - a) else s.byte b := by
  rw [byte_setBytes _ _ _ _ (by rwa [Word.length_lowBytes])]
  by_cases hlo : a ≤ b
  · by_cases hhi : b < a + n
    · rw [if_pos hlo, if_pos ⟨hlo, hhi⟩, Word.getElem?_lowBytes n v (by omega)]
      rfl
    · rw [if_pos hlo, if_neg (fun hb => hhi hb.2),
        List.getElem?_eq_none (by rw [Word.length_lowBytes]; omega)]
      rfl
  · rw [if_neg hlo, if_neg (fun hb => hlo hb.1)]

theorem bytesAt_congr {s t : ByteStore} : ∀ {n a : Nat},
    (∀ b, a ≤ b → b < a + n → s.byte b = t.byte b) → s.bytesAt a n = t.bytesAt a n
  | 0, _, _ => rfl
  | n + 1, a, h => by
    rw [bytesAt, bytesAt, h a (by omega) (by omega),
      bytesAt_congr (n := n) fun b hlo hhi => h b (by omega) (by omega)]

theorem read_congr {s t : ByteStore} {a : Word} {w : Width} (hsize : s.size = t.size)
    (h : ∀ b, a.toNat ≤ b → b < a.toNat + w.bytes → s.byte b = t.byte b) (signed : Bool) :
    s.read a w signed = t.read a w signed := by
  unfold read covers raw
  rw [hsize, bytesAt_congr h]

theorem read_eq_ok {s : ByteStore} {a v : Word} {w : Width} {signed : Bool}
    (h : s.read a w signed = .ok v) :
    a.toNat + w.bytes ≤ s.size ∧ v = w.extend (s.raw a.toNat w) signed := by
  unfold read covers at h
  split at h
  · rename_i hc
    exact ⟨by simpa using hc, by simpa using h.symm⟩
  · simp at h

theorem read_of_le {s : ByteStore} {a : Word} {w : Width} (h : a.toNat + w.bytes ≤ s.size)
    (signed : Bool) : s.read a w signed = .ok (w.extend (s.raw a.toNat w) signed) := by
  simp [read, covers, h]

/-- Puts instruction words from an address on. -/
def withProgram (s : ByteStore) (a : Nat) (words : List (BitVec 32)) : ByteStore :=
  s.setBytes a (words.flatMap fun w => Word.lowBytes (w.setWidth 64) 4)

theorem write_eq_ok {s t : ByteStore} {a v : Word} {w : Width} (h : s.write a w v = .ok t) :
    a.toNat + w.bytes ≤ s.size ∧ t = s.setBytes a.toNat (v.lowBytes w.bytes) := by
  unfold write covers at h
  split at h
  · rename_i hc
    exact ⟨by simpa using hc, by simpa using h.symm⟩
  · simp at h

end ByteStore

theorem Width.toNat_truncate_le (w : Width) (v : Word) : (w.truncate v).toNat ≤ v.toNat := by
  rw [truncate, BitVec.toNat_setWidth, BitVec.toNat_setWidth]
  exact Nat.le_trans (Nat.mod_le _ _) (Nat.mod_le _ _)

/-- A read that takes input answers with a byte of it. -/
theorem Console.read_same_or_byte (c : Console) (offset : Word) (w : Width) :
    (c.read offset w).2 = c ∨ (w.extend (c.read offset w).1 false).toNat < 256 := by
  rw [read_eq]
  by_cases h : offset = dataOffset
  · rcases hi : c.input with _ | ⟨b, bs⟩
    · left
      cases c
      simp_all
    · right
      have hb := b.toNat_lt
      have hv : c.value offset = BitVec.ofNat 64 b.toNat := by simp [value, h, hi]
      calc (w.extend (c.peek offset w) false).toNat
          = (w.truncate (w.truncate (BitVec.ofNat 64 b.toNat))).toNat := by
            rw [← hv]
            rfl
        _ ≤ (BitVec.ofNat 64 b.toNat).toNat :=
            Nat.le_trans (w.toNat_truncate_le _) (w.toNat_truncate_le _)
        _ < 256 := by
            rw [BitVec.toNat_ofNat]
            omega
  · left
    simp [h]

theorem exceptMap_eq_ok {ε α β : Type} {x : Except ε α} {f : α → β} {b : β} :
    x.map f = .ok b ↔ ∃ a, x = .ok a ∧ f a = b := by
  cases x <;> simp [Except.map]

namespace IoWindow

variable {δ : Type} [Device δ] {io : IoWindow δ} {p v : Word} {w : Width} {signed : Bool}

theorem of_target?_eq_backing {start : Nat} (h : io.target? p w = some (.backing start)) :
    (∀ d ∈ io.devices, Device.covers d p w.bytes = false) ∧
      start = p.toNat - ioStart ∧ start + w.bytes ≤ io.backing.size := by
  unfold target? at h
  split at h
  · cases h
  · rename_i hf
    split at h
    · rename_i hb
      rw [Option.some.injEq, Target.backing.injEq] at h
      subst h
      simp only [backs, ByteStore.covers, Bool.and_eq_true, decide_eq_true_eq] at hb
      exact ⟨by simpa using hf, rfl, hb.2⟩
    · simp at h

/-- A read is answered by the device that it lands in, which is left changed, or by the store. -/
theorem read_cases {r : Reply (IoWindow δ) Word} (h : io.read p w signed = .ok r) :
    (∃ place d, io.target? p w = some (.device place) ∧ io.devices.get place = d ∧
      r = ⟨w.extend (Device.read d (p - Device.base d) w).1 signed,
        { io with devices := io.devices.set place (Device.read d (p - Device.base d) w).2 },
        [.bus (transaction d p w .read)]⟩) ∨
    ∃ start, io.target? p w = some (.backing start) ∧
      r = ⟨w.extend (io.backing.raw start w) signed, io, []⟩ := by
  unfold read at h
  rcases ht : io.target? p w with _ | (place | start) <;> rw [ht] at h
  · cases h
  · exact .inl ⟨place, _, rfl, rfl, (Except.ok.inj h).symm⟩
  · exact .inr ⟨start, rfl, (Except.ok.inj h).symm⟩

/-- A preview is answered from where a read is, and changes nothing. -/
theorem preview_cases {r : Reply (IoWindow δ) Word} (h : io.preview p w signed = .ok r) :
    (∃ place d, io.target? p w = some (.device place) ∧ io.devices.get place = d ∧
      r = ⟨w.extend (Device.peek d (p - Device.base d) w) signed, io,
        [.bus (transaction d p w .peek)]⟩) ∨
    ∃ start, io.target? p w = some (.backing start) ∧
      r = ⟨w.extend (io.backing.raw start w) signed, io, []⟩ := by
  unfold preview at h
  rcases ht : io.target? p w with _ | (place | start) <;> rw [ht] at h
  · cases h
  · exact .inl ⟨place, _, rfl, rfl, (Except.ok.inj h).symm⟩
  · exact .inr ⟨start, rfl, (Except.ok.inj h).symm⟩

/-- A write changes the device that it lands in, or the bytes of the store. -/
theorem write_cases {r : Reply (IoWindow δ) Unit} (h : io.write p w v = .ok r) :
    (∃ place d, io.target? p w = some (.device place) ∧ io.devices.get place = d ∧
      r.after = { io with
        devices := io.devices.set place (Device.write d (p - Device.base d) w (w.truncate v)) }) ∨
    ∃ start, io.target? p w = some (.backing start) ∧
      r.after = { io with backing := io.backing.setBytes start (v.lowBytes w.bytes) } := by
  unfold write at h
  rcases ht : io.target? p w with _ | (place | start) <;> rw [ht] at h
  · cases h
  · exact .inl ⟨place, _, rfl, rfl, (congrArg Reply.after (Except.ok.inj h)).symm⟩
  · exact .inr ⟨start, rfl, (congrArg Reply.after (Except.ok.inj h)).symm⟩

theorem covers_of_target?_eq_device {place : Fin io.devices.length}
    (h : io.target? p w = some (.device place)) :
    ∃ d ∈ io.devices, Device.covers d p w.bytes = true := by
  unfold target? at h
  split at h
  · rename_i hf
    exact ⟨_, List.getElem_mem _, (List.findFinIdx?_eq_some_iff.mp hf).1⟩
  · split at h <;> simp at h

end IoWindow

namespace Memory

variable {δ : Type} [Device δ] {m n : Memory δ} {p v : Word} {w : Width} {signed : Bool}

theorem read_io (h : p.inIoWindow = true) : m.read p w signed =
    (m.io.read p w signed).map (·.within fun io => { m with io := io }) := by
  simp only [read, readIo, h, if_true]

theorem read_physical (h : p.inIoWindow = false) : m.read p w signed =
    (m.physical.read p w signed).map fun v => ⟨v, m, []⟩ := by
  simp only [read, readPhysical, h, Bool.false_eq_true, if_false]

theorem preview_io (h : p.inIoWindow = true) : m.preview p w signed =
    (m.io.preview p w signed).map (·.within fun io => { m with io := io }) := by
  simp only [preview, h, if_true]

theorem preview_physical (h : p.inIoWindow = false) : m.preview p w signed =
    (m.physical.read p w signed).map fun v => ⟨v, m, []⟩ := by
  simp only [preview, readPhysical, h, Bool.false_eq_true, if_false]

theorem write_io (h : p.inIoWindow = true) : m.write p w v =
    (m.io.write p w v).map (·.within fun io => { m with io := io }) := by
  simp only [write, writeIo, h, if_true]

theorem write_physical (h : p.inIoWindow = false) : m.write p w v =
    (m.physical.write p w v).map fun s => ⟨(), { m with physical := s }, []⟩ := by
  simp only [write, writePhysical, h, Bool.false_eq_true, if_false]

theorem read_eq_ok {r : Reply (Memory δ) Word} (hp : p.inIoWindow = false)
    (h : m.read p w signed = .ok r) :
    m.physical.read p w signed = .ok r.value ∧ r.after = m := by
  rw [read_physical hp, exceptMap_eq_ok] at h
  obtain ⟨v, hv, rfl⟩ := h
  exact ⟨hv, rfl⟩

theorem physical_read {r : Reply (Memory δ) Word} (h : m.read p w signed = .ok r) :
    r.after.physical = m.physical := by
  rcases hp : p.inIoWindow
  · rw [(read_eq_ok hp h).2]
  · rw [read_io hp, exceptMap_eq_ok] at h
    obtain ⟨q, -, rfl⟩ := h
    rfl

theorem after_preview {r : Reply (Memory δ) Word} (h : m.preview p w signed = .ok r) :
    r.after = m := by
  rcases hp : p.inIoWindow
  · rw [preview_physical hp, exceptMap_eq_ok] at h
    obtain ⟨v, -, rfl⟩ := h
    rfl
  · rw [preview_io hp, exceptMap_eq_ok] at h
    obtain ⟨q, hq, rfl⟩ := h
    rcases IoWindow.preview_cases hq with ⟨_, _, -, -, rfl⟩ | ⟨_, -, rfl⟩ <;> rfl

/-- Where a read can be previewed it can be made. -/
theorem read_of_preview {r : Reply (Memory δ) Word} (h : m.preview p w signed = .ok r)
    (signed' : Bool) : ∃ q, m.read p w signed' = .ok q := by
  rcases hp : p.inIoWindow
  · rw [preview_physical hp, exceptMap_eq_ok] at h
    obtain ⟨v, hv, -⟩ := h
    rw [read_physical hp, ByteStore.read_of_le (ByteStore.read_eq_ok hv).1]
    exact ⟨_, rfl⟩
  · rw [preview_io hp, exceptMap_eq_ok] at h
    obtain ⟨q, hq, -⟩ := h
    rw [read_io hp]
    unfold IoWindow.read
    rcases IoWindow.preview_cases hq with ⟨_, _, ht, -, -⟩ | ⟨_, ht, -⟩ <;> rw [ht]
    · exact ⟨_, rfl⟩
    · exact ⟨_, rfl⟩

/-- A write that succeeds either goes to the I/O window or sets the bytes it covers. -/
theorem write_eq_ok {r : Reply (Memory δ) Unit} (h : m.write p w v = .ok r) :
    p.inIoWindow = true ∧ r.after.physical = m.physical ∨
      p.inIoWindow = false ∧ p.toNat + w.bytes ≤ m.physical.size ∧ r.after.io = m.io ∧
        r.after.physical = m.physical.setBytes p.toNat (v.lowBytes w.bytes) := by
  rcases hp : p.inIoWindow
  · rw [write_physical hp, exceptMap_eq_ok] at h
    obtain ⟨s, hs, rfl⟩ := h
    obtain ⟨hc, rfl⟩ := ByteStore.write_eq_ok hs
    exact .inr ⟨rfl, hc, rfl, rfl⟩
  · rw [write_io hp, exceptMap_eq_ok] at h
    obtain ⟨q, -, rfl⟩ := h
    exact .inl ⟨rfl, rfl⟩

theorem size_write {r : Reply (Memory δ) Unit} (h : m.write p w v = .ok r) :
    r.after.physical.size = m.physical.size := by
  rcases write_eq_ok h with ⟨-, hr⟩ | ⟨-, -, -, hr⟩ <;> rw [hr]
  exact ByteStore.size_setBytes _ _ _

/-- The bytes of physical memory after a write. -/
theorem byte_write {r : Reply (Memory δ) Unit} (h : m.write p w v = .ok r) (b : Nat) :
    r.after.physical.byte b =
      if p.inIoWindow = false ∧ p.toNat ≤ b ∧ b < p.toNat + w.bytes then v.byte (b - p.toNat)
      else m.physical.byte b := by
  rcases write_eq_ok h with ⟨hp, hr⟩ | ⟨hp, hc, -, hr⟩
  · simp [hp, hr]
  · simp only [hp, hr, true_and]
    exact ByteStore.byte_setBytes_lowBytes v b hc

/-- A read leaves the store behind the devices of the I/O window alone. -/
theorem backing_read {r : Reply (Memory δ) Word} (h : m.read p w signed = .ok r) :
    r.after.io.backing = m.io.backing := by
  rcases hp : p.inIoWindow
  · rw [(read_eq_ok hp h).2]
  · rw [read_io hp, exceptMap_eq_ok] at h
    obtain ⟨q, hq, rfl⟩ := h
    rcases IoWindow.read_cases hq with ⟨_, _, -, -, rfl⟩ | ⟨_, -, rfl⟩ <;> rfl

theorem le_of_inIoWindow (hp : p.inIoWindow = true) : ioStart ≤ p.toNat := by
  simp only [Word.inIoWindow, Bool.and_eq_true, decide_eq_true_eq] at hp
  exact hp.1

/-- The bytes of the store of the I/O window after a write: it sets those that it covers, unless a
device has them. -/
theorem byte_backing_write {r : Reply (Memory δ) Unit} (h : m.write p w v = .ok r) (b : Nat) :
    r.after.io.backing.byte b =
      if p.inIoWindow = true ∧ (∀ d ∈ m.io.devices, Device.covers d p w.bytes = false) ∧
        p.toNat ≤ ioStart + b ∧ ioStart + b < p.toNat + w.bytes then
        v.byte (ioStart + b - p.toNat)
      else m.io.backing.byte b := by
  rcases hp : p.inIoWindow
  · rw [write_physical hp, exceptMap_eq_ok] at h
    obtain ⟨_, -, rfl⟩ := h
    rw [if_neg (fun hc => absurd hc.1 (by decide))]
  · rw [write_io hp, exceptMap_eq_ok] at h
    obtain ⟨q, hq, rfl⟩ := h
    rcases IoWindow.write_cases hq with ⟨_, _, ht, -, hafter⟩ | ⟨start, ht, hafter⟩ <;>
      simp only [Reply.within, hafter]
    · obtain ⟨d, hd, hcovers⟩ := IoWindow.covers_of_target?_eq_device ht
      rw [if_neg (fun hc => by simp [hc.2.1 d hd] at hcovers)]
    · obtain ⟨hnone, hs, hsize⟩ := IoWindow.of_target?_eq_backing ht
      have hstart := le_of_inIoWindow hp
      simp only [ByteStore.byte_setBytes_lowBytes _ _ hsize]
      by_cases hb : p.toNat ≤ ioStart + b ∧ ioStart + b < p.toNat + w.bytes
      · rw [if_pos (by omega), if_pos ⟨trivial, hnone, hb⟩, hs,
          show b - (p.toNat - ioStart) = ioStart + b - p.toNat by omega]
      · rw [if_neg (by omega), if_neg (fun hc => hb hc.2.2)]

theorem lt_of_inIoWindow (h : p.inIoWindow = true) : p.toNat + w.bytes < 2 ^ 33 := by
  have hw : w.bytes ≤ 8 := by cases w <;> decide
  simp only [Word.inIoWindow, Bool.and_eq_true, decide_eq_true_eq] at h
  have hlimit := h.2
  simp only [ioLimit] at hlimit
  omega

/-- The bytes of an access lie well below the end of the address space. -/
theorem lt_of_read {r : Reply (Memory δ) Word} (hm : m.physical.size ≤ ioStart)
    (h : m.read p w signed = .ok r) : p.toNat + w.bytes < 2 ^ 33 := by
  rcases hp : p.inIoWindow
  · have hc := (ByteStore.read_eq_ok (read_eq_ok hp h).1).1
    simp only [ioStart] at hm
    omega
  · exact lt_of_inIoWindow hp

theorem lt_of_write {r : Reply (Memory δ) Unit} (hm : m.physical.size ≤ ioStart)
    (h : m.write p w v = .ok r) : p.toNat + w.bytes < 2 ^ 33 := by
  rcases write_eq_ok h with ⟨hp, -⟩ | ⟨-, hc, -, -⟩
  · exact lt_of_inIoWindow hp
  · simp only [ioStart] at hm
    omega

/-- Where all devices are consoles, a read that changes memory answers with a byte. -/
theorem read_consoles {r : Reply (Memory δ) Word}
    (hd : ∀ d ∈ m.io.devices, ∃ c, d = .console c) (h : m.read p w false = .ok r) :
    r.after = m ∨ r.value.toNat < 256 := by
  rcases hp : p.inIoWindow
  · exact .inl (read_eq_ok hp h).2
  · rw [read_io hp, exceptMap_eq_ok] at h
    obtain ⟨q, hq, rfl⟩ := h
    rcases IoWindow.read_cases hq with ⟨place, d, -, hplace, rfl⟩ | ⟨_, -, rfl⟩
    · obtain ⟨c, rfl⟩ := hd d (hplace ▸ List.get_mem _ _)
      rcases c.read_same_or_byte (p - c.base) w with h | h
      · left
        have hset : m.io.devices.set place (.console c) = m.io.devices := by
          rw [← hplace, List.get_eq_getElem, List.set_getElem_self]
        show ({ m with
          io.devices := m.io.devices.set place (.console (c.read (p - c.base) w).2) } :
            Memory δ) = m
        rw [h, hset]
      · exact .inr h
    · exact .inl rfl

end Memory

end Processor64
