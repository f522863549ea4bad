import Processor64.Proofs.Checked.Words
import Processor64.Proofs.Bytes
import Processor64.Proofs.Replacement

/-!
# Tables and stores, step by step

The translation buffer and the memory with every place of a table and every run of bytes checked.
A translation buffer that has a slot is never asked for one that it has not
(`Tlb.Checked.insert_eq`), and an access to memory never leaves the store or the device that it has
been sent to (`Memory.Checked.read_eq`, `Memory.Checked.write_eq`), provided that the sizes can be
counted in 63 bits.
-/

namespace Processor64

open Checked

/-! ## The translation buffer -/

namespace Tlb.Checked

variable (t : Tlb) (a : Word)

/-- The slot at a place of the table. -/
def slotAt (i : Nat) : Except Failure Slot :=
  match t.slots[i]? with
  | some s => .ok s
  | none => .error .index

/-- The place of a page, found by its index. -/
def position? (p : Page) : Option Nat := t.slots.findIdx? (·.holds p)

def peek : Except Failure (Option Mapping) :=
  match position? t a.page with
  | none => .ok none
  | some i => return some (← slotAt t i).mapping

def lookup : Except Failure (Option Mapping × Tlb) :=
  match position? t a.page with
  | none => .ok (none, { t with misses := t.misses + 1 })
  | some i => do
    let slot ← slotAt t i
    return (some slot.mapping,
      { t with
        slots := t.slots.set i { slot with stamp := t.clock + 1 }
        clock := t.clock + 1
        hits := t.hits + 1 })

def insert (m : Mapping) : Except Failure (Nat × Tlb) := do
  let i := (position? t m.page).getD t.victim
  let _ ← slotAt t i
  return (i, { t with
    slots := t.slots.set i ⟨true, m, t.clock + 1⟩
    clock := t.clock + 1 })

def purge : Except Failure (Bool × Tlb) :=
  match position? t a.page with
  | none => .ok (false, t)
  | some i => do
    let slot ← slotAt t i
    return (true, { t with slots := t.slots.set i { slot with valid := false, stamp := 0 } })

def translate (k : AccessKind) (c : AccessContext) : Except Failure (Except Trap Word × Tlb) :=
  if c.bypasses a then .ok (.ok a, t)
  else do
    match ← lookup t a with
    | (none, t) => return (.error (.unmapped a k), t)
    | (some m, t) => return (if m.grants k c then .ok (m.translate a) else .error (.denied a k), t)

def resolve (c : AccessContext) : Except Failure (Except Trap Word × Tlb) :=
  if c.bypasses a then .ok (.ok a, t)
  else do
    match ← lookup t a with
    | (none, t) => return (.error (.unmapped a .read), t)
    | (some m, t) => return (.ok (m.translate a), t)

def probe (k : AccessKind) (c : AccessContext) : Except Failure Bool :=
  if c.bypasses a then .ok true else return (← peek t a).any (·.grants k c)

variable {t a}

theorem position?_eq (p : Page) : position? t p = (t.find? p).map Fin.val := by
  rw [position?, find?, List.findIdx?_eq_map_findFinIdx?_val]

theorem slotAt_eq {i : Nat} (h : i < t.slots.length) : slotAt t i = .ok t.slots[i] := by
  rw [slotAt, List.getElem?_eq_getElem h]

theorem peek_eq : peek t a = .ok (t.peek a) := by
  rw [peek, position?_eq, Tlb.peek]
  rcases t.find? a.page with _ | ⟨i, hi⟩
  · rfl
  · simp only [Option.map_some, slotAt_eq hi]
    rfl

theorem lookup_eq : lookup t a = .ok (t.lookup a) := by
  rw [lookup, position?_eq, Tlb.lookup]
  rcases t.find? a.page with _ | ⟨i, hi⟩
  · rfl
  · simp only [Option.map_some, slotAt_eq hi]
    rfl

/-- A table with a slot has one for every page. -/
theorem insert_eq (h : t.slots ≠ []) (m : Mapping) : insert t m = .ok (t.insert m) := by
  rw [insert, position?_eq, Tlb.insert]
  rcases t.find? m.page with _ | ⟨i, hi⟩
  · obtain ⟨s, hs, -⟩ := victim_cases h
    have hi := (List.getElem?_eq_some_iff.mp hs).1
    simp only [Option.map_none, Option.getD_none, slotAt_eq hi]
    rfl
  · simp only [Option.map_some, Option.getD_some, slotAt_eq hi]
    rfl

theorem purge_eq : purge t a = .ok (t.purge a) := by
  rw [purge, position?_eq, Tlb.purge]
  rcases t.find? a.page with _ | ⟨i, hi⟩
  · rfl
  · simp only [Option.map_some, slotAt_eq hi]
    rfl

theorem translate_eq (k : AccessKind) (c : AccessContext) :
    translate t a k c = .ok (t.translate a k c) := by
  rw [translate, Tlb.translate, lookup_eq]
  split
  · rfl
  · rcases t.lookup a with ⟨_ | m, u⟩ <;> rfl

theorem resolve_eq (c : AccessContext) : resolve t a c = .ok (t.resolve a c) := by
  rw [resolve, Tlb.resolve, lookup_eq]
  split
  · rfl
  · rcases t.lookup a with ⟨_ | m, u⟩ <;> rfl

theorem probe_eq (k : AccessKind) (c : AccessContext) :
    probe t a k c = .ok (t.probe a k c) := by
  rw [probe, Tlb.probe, peek_eq]
  rcases c.bypasses a <;> rfl

end Tlb.Checked

/-! ## Bytes -/

namespace ByteStore.Checked

variable (s : ByteStore)

/-- The run of bytes from `start` up to `stop`. -/
def slice (start stop : Nat) : Except Failure (List UInt8) :=
  if start ≤ stop ∧ stop ≤ s.size then .ok (s.bytesAt start (stop - start)) else .error .range

/-- The number of at most eight bytes. -/
def number (bytes : List UInt8) : Except Failure Word :=
  if bytes.length ≤ 8 then .ok (BitVec.ofNat 64 (littleEndian bytes)) else .error .range

/-- Replaces the run of bytes from `start` up to `stop` by as many others. -/
def replace (start stop : Nat) (bytes : List UInt8) : Except Failure ByteStore :=
  if start ≤ stop ∧ stop ≤ s.size ∧ bytes.length = stop - start then .ok (s.setBytes start bytes)
  else .error .range

/-- The first `n` of the eight bytes of a word. -/
def firstBytes (v : Word) (n : Nat) : Except Failure (List UInt8) :=
  if n ≤ 8 then .ok (v.lowBytes n) else .error .range

/-- Where `n` bytes at an address lie, if they have an end and the store has them all. -/
def range? (a n : Nat) : Option (Nat × Nat) :=
  if a + n < 2 ^ 64 then if s.size < a + n then none else some (a, a + n) else none

def valueAt (start stop : Nat) : Except Failure Word := do number (← slice s start stop)

def read (a : Word) (w : Width) (signed : Bool) : Except Failure (Except Trap Word) :=
  match range? s a.toNat w.bytes with
  | none => .ok (.error (.outsidePhysical a w))
  | some (start, stop) => return .ok (← extend w (← valueAt s start stop) signed)

def write (a : Word) (w : Width) (v : Word) : Except Failure (Except Trap ByteStore) :=
  match range? s a.toNat w.bytes with
  | none => .ok (.error (.outsidePhysical a w))
  | some (start, stop) => return .ok (← replace s start stop (← firstBytes v (stop - start)))

variable {s} {a : Word} {w : Width}

theorem bytes_le (w : Width) : w.bytes ≤ 8 := by cases w <;> decide

theorem length_bytesAt (s : ByteStore) : ∀ (n a : Nat), (s.bytesAt a n).length = n
  | 0, _ => rfl
  | n + 1, a => congrArg (· + 1) (length_bytesAt s n (a + 1))

/-- A range is found without an overflow. -/
theorem range?_eq (h : s.size < 2 ^ 64) (n : Nat) : range? s a.toNat n =
    if s.covers a.toNat n then some (a.toNat, a.toNat + n) else none := by
  unfold range? covers
  by_cases hle : a.toNat + n ≤ s.size
  · simp only [hle, decide_true, if_true, show a.toNat + n < 2 ^ 64 by omega,
      show ¬ s.size < a.toNat + n by omega, if_false]
  · simp only [hle, decide_false, Bool.false_eq_true, show s.size < a.toNat + n by omega,
      if_true, if_false, ite_self]

theorem valueAt_eq {start : Nat} (h : start + w.bytes ≤ s.size) :
    valueAt s start (start + w.bytes) = .ok (s.raw start w) := by
  have hslice : slice s start (start + w.bytes) = .ok (s.bytesAt start w.bytes) := by
    rw [slice, if_pos ⟨Nat.le_add_right _ _, h⟩, Nat.add_sub_cancel_left]
  rw [valueAt, hslice, ok_bind, number, if_pos (by rw [length_bytesAt]; exact bytes_le w)]
  rfl

theorem replace_eq {start : Nat} (v : Word) (h : start + w.bytes ≤ s.size) :
    replace s start (start + w.bytes) (v.lowBytes w.bytes) =
      .ok (s.setBytes start (v.lowBytes w.bytes)) := by
  have hlength : (v.lowBytes w.bytes).length = start + w.bytes - start := by
    rw [Word.length_lowBytes, Nat.add_sub_cancel_left]
  rw [replace, if_pos ⟨Nat.le_add_right _ _, h, hlength⟩]

theorem firstBytes_eq (v : Word) : firstBytes v w.bytes = .ok (v.lowBytes w.bytes) :=
  if_pos (bytes_le w)

theorem read_eq (h : s.size < 2 ^ 64) (a : Word) (w : Width) (signed : Bool) :
    read s a w signed = .ok (s.read a w signed) := by
  rw [read, range?_eq h, ByteStore.read]
  by_cases hc : s.covers a.toNat w.bytes = true
  · have hle : a.toNat + w.bytes ≤ s.size := by simpa [covers] using hc
    simp only [hc, if_true, valueAt_eq hle, ok_bind, extend_eq, pure_eq_ok]
  · simp [hc]

theorem write_eq (h : s.size < 2 ^ 64) (a : Word) (w : Width) (v : Word) :
    write s a w v = .ok (s.write a w v) := by
  rw [write, range?_eq h, ByteStore.write]
  by_cases hc : s.covers a.toNat w.bytes = true
  · have hle : a.toNat + w.bytes ≤ s.size := by simpa [covers] using hc
    simp only [hc, if_true, Nat.add_sub_cancel_left, firstBytes_eq, ok_bind, replace_eq v hle,
      pure_eq_ok]
  · simp [hc]

end ByteStore.Checked

/-! ## The I/O window -/

namespace IoWindow.Checked

variable {δ : Type}

/-- Where an access lands: at a place in the list of devices, or in the store. -/
inductive Route where
  | device (place : Nat)
  | backing (start : Nat)

def Route.of {io : IoWindow δ} : Target io → Route
  | .device place => .device place
  | .backing start => .backing start

variable [Device δ] (io : IoWindow δ) (a : Word) (w : Width)

/-- What answers for an access, with the offset checked. -/
def route? : Option Route :=
  match io.devices.findIdx? (Device.covers · a w.bytes) with
  | some place => some (.device place)
  | none =>
    if ioStart ≤ a.toNat ∧ saturatingSum (a.toNat - ioStart) w.bytes ≤ io.backing.size then
      some (.backing (a.toNat - ioStart))
    else none

/-- The device at a place of the list, and the offset of an address in its range. -/
def locate (place : Nat) : Except Failure (Peripheral δ × Word) :=
  match io.devices[place]? with
  | some p => return (p, BitVec.ofNat 64 (← difference a.toNat (Device.base p).toNat))
  | none => .error .index

def read (signed : Bool) : Except Failure (Except Trap (Reply (IoWindow δ) Word)) :=
  match route? io a w with
  | some (.device place) => do
    let (p, offset) ← locate io a place
    let (v, q) := Device.read p offset w
    return .ok ⟨← extend w v signed, { io with devices := io.devices.set place q },
      [.bus ⟨Device.name p, .read, w, offset⟩]⟩
  | some (.backing start) => do
    let v ← ByteStore.Checked.valueAt io.backing start (← sum 64 start w.bytes)
    return .ok ⟨← extend w v signed, io, []⟩
  | none => .ok (.error (.unclaimedIo a w))

def preview (signed : Bool) : Except Failure (Except Trap (Reply (IoWindow δ) Word)) :=
  match route? io a w with
  | some (.device place) => do
    let (p, offset) ← locate io a place
    return .ok ⟨← extend w (Device.peek p offset w) signed, io,
      [.bus ⟨Device.name p, .peek, w, offset⟩]⟩
  | some (.backing start) => do
    let v ← ByteStore.Checked.valueAt io.backing start (← sum 64 start w.bytes)
    return .ok ⟨← extend w v signed, io, []⟩
  | none => .ok (.error (.unclaimedIo a w))

def write (v : Word) : Except Failure (Except Trap (Reply (IoWindow δ) Unit)) :=
  match route? io a w with
  | some (.device place) => do
    let (p, offset) ← locate io a place
    let v := w.truncate v
    return .ok ⟨(), { io with devices := io.devices.set place (Device.write p offset w v) },
      .bus ⟨Device.name p, .write v, w, offset⟩ :: p.printed offset v⟩
  | some (.backing start) => do
    let stop ← sum 64 start w.bytes
    let bytes ← ByteStore.Checked.firstBytes v w.bytes
    return .ok ⟨(), { io with backing := ← ByteStore.Checked.replace io.backing start stop bytes },
      []⟩
  | none => .ok (.error (.unclaimedIo a w))

variable {io a w}

/-- A route is found without an overflow. -/
theorem route?_eq (h : io.backing.size < 2 ^ 63) :
    route? io a w = (io.target? a w).map Route.of := by
  unfold route? target?
  rw [List.findIdx?_eq_map_findFinIdx?_val]
  rcases io.devices.findFinIdx? (Device.covers · a w.bytes) with _ | place
  · have hbacks : (ioStart ≤ a.toNat ∧
        saturatingSum (a.toNat - ioStart) w.bytes ≤ io.backing.size) ↔
        io.backs a w.bytes = true := by
      simp only [backs, ByteStore.covers, saturatingSum, UInt64.size, Bool.and_eq_true,
        decide_eq_true_eq]
      omega
    simp only [Option.map_none, hbacks]
    rcases io.backs a w.bytes <;> rfl
  · rfl

/-- An address is not below the device that covers it. -/
theorem locate_eq {place : Fin io.devices.length} (h : io.target? a w = some (.device place)) :
    locate io a place =
      .ok (io.devices.get place, a - Device.base (io.devices.get place)) := by
  have hcovers : Device.covers (io.devices.get place) a w.bytes = true := by
    unfold target? at h
    split at h
    · rename_i hfind
      obtain rfl := Target.device.inj (Option.some.inj h)
      exact (List.findFinIdx?_eq_some_iff.mp hfind).1
    · split at h <;> simp at h
  have hbase : (Device.base (io.devices.get place)).toNat ≤ a.toNat := by
    simp only [Device.covers, rangeCovers, Bool.and_eq_true, BitVec.ule, decide_eq_true_eq]
      at hcovers
    exact hcovers.1
  rw [locate, List.getElem?_eq_getElem place.isLt]
  show (difference a.toNat (Device.base (io.devices.get place)).toNat >>= fun n =>
    Except.ok (io.devices.get place, BitVec.ofNat 64 n)) = _
  rw [difference_of_le hbase, ok_bind]
  refine congrArg (fun o => Except.ok (io.devices.get place, o)) (BitVec.eq_of_toNat_eq ?_)
  rw [BitVec.toNat_sub_of_le hbase, BitVec.toNat_ofNat, Nat.mod_eq_of_lt (by omega)]

/-- An access that goes to the store ends inside it. -/
theorem le_of_target? {start : Nat} (h : io.target? a w = some (.backing start)) :
    start + w.bytes ≤ io.backing.size := by
  unfold target? at h
  split at h
  · simp at h
  · split at h
    · rename_i hbacks
      obtain rfl := Target.backing.inj (Option.some.inj h)
      simp only [backs, ByteStore.covers, Bool.and_eq_true, decide_eq_true_eq] at hbacks
      exact hbacks.2
    · simp at h

theorem read_eq (h : io.backing.size < 2 ^ 63) (a : Word) (w : Width) (signed : Bool) :
    read io a w signed = .ok (io.read a w signed) := by
  rw [read, route?_eq h, IoWindow.read]
  rcases ht : io.target? a w with _ | (place | start)
  · rfl
  · simp only [Option.map_some, Route.of, locate_eq ht, extend_eq]
    rfl
  · have hle := le_of_target? ht
    simp only [Option.map_some, Route.of, sum_of_lt (show start + w.bytes < 2 ^ 64 by omega),
      ok_bind, ByteStore.Checked.valueAt_eq hle, extend_eq, pure_eq_ok]

theorem preview_eq (h : io.backing.size < 2 ^ 63) (a : Word) (w : Width) (signed : Bool) :
    preview io a w signed = .ok (io.preview a w signed) := by
  rw [preview, route?_eq h, IoWindow.preview]
  rcases ht : io.target? a w with _ | (place | start)
  · rfl
  · simp only [Option.map_some, Route.of, locate_eq ht, extend_eq]
    rfl
  · have hle := le_of_target? ht
    simp only [Option.map_some, Route.of, sum_of_lt (show start + w.bytes < 2 ^ 64 by omega),
      ok_bind, ByteStore.Checked.valueAt_eq hle, extend_eq, pure_eq_ok]

theorem write_eq (h : io.backing.size < 2 ^ 63) (a : Word) (w : Width) (v : Word) :
    write io a w v = .ok (io.write a w v) := by
  rw [write, route?_eq h, IoWindow.write]
  rcases ht : io.target? a w with _ | (place | start)
  · rfl
  · simp only [Option.map_some, Route.of, locate_eq ht]
    rfl
  · have hle := le_of_target? ht
    simp only [Option.map_some, Route.of, sum_of_lt (show start + w.bytes < 2 ^ 64 by omega),
      ok_bind, ByteStore.Checked.firstBytes_eq, ByteStore.Checked.replace_eq v hle, pure_eq_ok]

end IoWindow.Checked

/-! ## Memory -/

/-- The sizes of the stores have 63 bits, as those of all runs of bytes have. -/
structure Memory.Countable {δ : Type} (m : Memory δ) : Prop where
  physical : m.physical.size < 2 ^ 63
  backing : m.io.backing.size < 2 ^ 63

namespace Memory.Checked

variable {δ : Type} [Device δ] (m : Memory δ) (a : Word) (w : Width)

def read (signed : Bool) : Except Failure (Except Trap (Reply (Memory δ) Word)) :=
  if a.inIoWindow then
    return (← IoWindow.Checked.read m.io a w signed).map (·.within fun io => { m with io := io })
  else return (← ByteStore.Checked.read m.physical a w signed).map fun v => ⟨v, m, []⟩

def preview (signed : Bool) : Except Failure (Except Trap (Reply (Memory δ) Word)) :=
  if a.inIoWindow then
    return (← IoWindow.Checked.preview m.io a w signed).map (·.within fun io => { m with io := io })
  else return (← ByteStore.Checked.read m.physical a w signed).map fun v => ⟨v, m, []⟩

def write (v : Word) : Except Failure (Except Trap (Reply (Memory δ) Unit)) :=
  if a.inIoWindow then
    return (← IoWindow.Checked.write m.io a w v).map (·.within fun io => { m with io := io })
  else
    return (← ByteStore.Checked.write m.physical a w v).map fun p =>
      ⟨(), { m with physical := p }, []⟩

variable {m}

theorem read_eq (h : m.Countable) (signed : Bool) :
    read m a w signed = .ok (m.read a w signed) := by
  have hphysical := h.physical
  rw [read, IoWindow.Checked.read_eq h.backing, ByteStore.Checked.read_eq (by omega), Memory.read]
  rcases a.inIoWindow <;> rfl

theorem preview_eq (h : m.Countable) (signed : Bool) :
    preview m a w signed = .ok (m.preview a w signed) := by
  have hphysical := h.physical
  rw [preview, IoWindow.Checked.preview_eq h.backing, ByteStore.Checked.read_eq (by omega),
    Memory.preview]
  rcases a.inIoWindow <;> rfl

theorem write_eq (h : m.Countable) (v : Word) : write m a w v = .ok (m.write a w v) := by
  have hphysical := h.physical
  rw [write, IoWindow.Checked.write_eq h.backing, ByteStore.Checked.write_eq (by omega),
    Memory.write]
  rcases a.inIoWindow <;> rfl

end Memory.Checked

end Processor64
