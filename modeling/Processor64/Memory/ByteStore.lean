import Processor64.Access
import Processor64.Trap
import Std.Data.ExtTreeMap

/-!
# Byte stores

A run of `size` bytes, all zero at first. Only bytes other than zero are kept in the map
(`cells_ne_zero`), and only below the size (`lt_size_of_mem`), so a store is determined by its
size and its view `byte` (`ext_byte`). Values of several bytes are little-endian.
-/

namespace Processor64

/-- The number whose bytes, lowest first, are `bs`. -/
def littleEndian : List UInt8 → Nat
  | [] => 0
  | b :: bs => b.toNat + 256 * littleEndian bs

/-- The `n` low bytes of `v`, lowest first. -/
def Word.lowBytes (v : Word) : Nat → List UInt8
  | 0 => []
  | n + 1 => UInt8.ofNat v.toNat :: Word.lowBytes (v >>> 8) n

/-- A run of bytes of which only those that are not zero are kept. -/
structure ByteStore where
  size : Nat
  cells : Std.ExtTreeMap Nat UInt8
  cells_ne_zero : ∀ a : Nat, cells[a]? ≠ some 0
  lt_size_of_mem : ∀ a : Nat, a ∈ cells → a < size

namespace ByteStore

def zeros (size : Nat) : ByteStore where
  size := size
  cells := ∅
  cells_ne_zero := by simp
  lt_size_of_mem := by simp

/-- The byte at a place; past the end it is zero. -/
def byte (s : ByteStore) (a : Nat) : UInt8 :=
  s.cells[a]?.getD 0

/-- Sets one byte; there is nothing to set from the size on. -/
def setByte (s : ByteStore) (a : Nat) (v : UInt8) : ByteStore :=
  if h : a < s.size then
    if hv : v = 0 then
      { s with
        cells := s.cells.erase a
        cells_ne_zero := fun b => by
          rw [Std.ExtTreeMap.getElem?_erase]
          split
          · simp
          · exact s.cells_ne_zero b
        lt_size_of_mem := fun b hb => s.lt_size_of_mem b (Std.ExtTreeMap.mem_of_mem_erase hb) }
    else
      { s with
        cells := s.cells.insert a v
        cells_ne_zero := fun b => by
          rw [Std.ExtTreeMap.getElem?_insert]
          split
          · simpa using hv
          · exact s.cells_ne_zero b
        lt_size_of_mem := fun b hb => by
          rcases Std.ExtTreeMap.mem_insert.mp hb with hb | hb
          · rw [Std.compare_eq_iff_eq] at hb
            exact hb ▸ h
          · exact s.lt_size_of_mem b hb }
  else s

theorem size_setByte (s : ByteStore) (a : Nat) (v : UInt8) : (s.setByte a v).size = s.size := by
  unfold setByte
  split
  · split <;> rfl
  · rfl

theorem byte_setByte (s : ByteStore) (a b : Nat) (v : UInt8) :
    (s.setByte a v).byte b = if a = b ∧ a < s.size then v else s.byte b := by
  unfold setByte byte
  split
  · split
    · simp only [Std.ExtTreeMap.getElem?_erase, Std.compare_eq_iff_eq]
      by_cases hab : a = b <;> simp_all
    · simp only [Std.ExtTreeMap.getElem?_insert, Std.compare_eq_iff_eq]
      by_cases hab : a = b <;> simp_all
  · next h => rw [if_neg (fun hab => h hab.2)]

theorem ext_byte {s t : ByteStore} (hsize : s.size = t.size) (hbyte : ∀ a, s.byte a = t.byte a) :
    s = t := by
  have hcells : s.cells = t.cells := by
    apply Std.ExtTreeMap.ext_getElem?
    intro a
    have h := hbyte a
    have hs := s.cells_ne_zero a
    have ht := t.cells_ne_zero a
    unfold byte at h
    rcases hx : s.cells[a]? with _ | x <;> rcases hy : t.cells[a]? with _ | y <;>
      rw [hx, hy] at h <;> simp_all
  cases s
  cases t
  simp_all

/-- Whether a run of places lies within the store. -/
def covers (s : ByteStore) (a n : Nat) : Bool := a + n ≤ s.size

/-- The bytes of a run of places. -/
def bytesAt (s : ByteStore) (a : Nat) : Nat → List UInt8
  | 0 => []
  | n + 1 => s.byte a :: s.bytesAt (a + 1) n

/-- The store with a run of bytes overwritten. -/
def setBytes (s : ByteStore) (a : Nat) : List UInt8 → ByteStore
  | [] => s
  | b :: bs => (s.setByte a b).setBytes (a + 1) bs

/-- The value of the bytes from `a`, without widening. -/
def raw (s : ByteStore) (a : Nat) (w : Width) : Word :=
  BitVec.ofNat 64 (littleEndian (s.bytesAt a w.bytes))

/-- The groups of eight bytes with a byte other than zero, as address and value, ascending. -/
def occupied (s : ByteStore) : List (Nat × Nat) :=
  let groups := (s.cells.toList.map fun (a, _) => a / 8 * 8).eraseReps
  groups.map fun g => (g, littleEndian (s.bytesAt g 8))

/-!
## Physical memory

A store whose addresses start at 0. An access that leaves it traps before a byte is touched.
-/

/-- The value of a width at an address, if it lies within the store. -/
def read (s : ByteStore) (a : Word) (w : Width) (signed : Bool) : Except Trap Word :=
  if s.covers a.toNat w.bytes then .ok (w.extend (s.raw a.toNat w) signed)
  else .error (.outsidePhysical a w)

/-- The store with a value of a width overwritten, if it lies within the store. -/
def write (s : ByteStore) (a : Word) (w : Width) (v : Word) : Except Trap ByteStore :=
  if s.covers a.toNat w.bytes then .ok (s.setBytes a.toNat (v.lowBytes w.bytes))
  else .error (.outsidePhysical a w)

/-- Copies an image to `a`, as a whole or not at all. -/
def load (s : ByteStore) (a : Word) (image : List UInt8) : Except Trap ByteStore :=
  if s.covers a.toNat image.length then .ok (s.setBytes a.toNat image)
  else .error (.outsidePhysical a .byte)

end ByteStore

end Processor64
