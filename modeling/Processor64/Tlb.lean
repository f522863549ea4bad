import Processor64.Word

/-!
# The translation buffer

A table of mappings from virtual pages to physical frames, searched as a whole. A hit and an
insertion stamp their slot with the next tick of the clock. An insertion reuses the slot that holds
its page, else the first invalid slot, else the slot with the oldest stamp.
-/

namespace Processor64

/-- The bits of access rights, lowest first: read, write, execute, user. -/
abbrev Rights := BitVec 8

/-- A page of addresses, the frame it lies in, and who may use it how. -/
structure Mapping where
  page : Page
  frame : Page
  rights : Rights
  /-- Zero ties the page to no process. -/
  protectionId : BitVec 32
  deriving DecidableEq, Repr

/-- The place in the frame of an address in the page. -/
def Mapping.translate (m : Mapping) (a : Word) : Word :=
  m.frame.withOffset a.offset

/-- A place in the TLB: a mapping, if it is valid, and when it was last used. -/
structure Slot where
  valid : Bool
  mapping : Mapping
  stamp : Nat
  deriving DecidableEq, Repr

namespace Slot

/-- A place that holds no mapping. -/
def empty : Slot := ⟨false, ⟨0, 0, 0, 0⟩, 0⟩

/-- Whether a place holds the mapping of a page. -/
def holds (s : Slot) (p : Page) : Bool := s.valid && s.mapping.page == p

/-- Invalid slots come before all others, which come in the order of their last use. -/
def age (s : Slot) : Nat := if s.valid then s.stamp + 1 else 0

end Slot

/-- A fully associative buffer of mappings, with its clock and its counters. -/
structure Tlb where
  slots : List Slot
  clock : Nat
  hits : Nat
  misses : Nat
  deriving DecidableEq

namespace Tlb

/-- An empty table of `capacity` slots, at least one. -/
def create (capacity : Nat) : Tlb :=
  ⟨List.replicate (max capacity 1) .empty, 0, 0, 0⟩

def capacity (t : Tlb) : Nat := t.slots.length

def validCount (t : Tlb) : Nat := t.slots.countP (·.valid)

/-- The first place that holds the mapping of a page. -/
def find? (t : Tlb) (p : Page) : Option (Fin t.slots.length) :=
  t.slots.findFinIdx? (·.holds p)

/-- The mapping for an address, without a trace in stamps or counts. -/
def peek (t : Tlb) (a : Word) : Option Mapping :=
  (t.find? a.page).map fun i => t.slots[i].mapping

/-- The mapping for an address. A hit stamps its slot. -/
def lookup (t : Tlb) (a : Word) : Option Mapping × Tlb :=
  match t.find? a.page with
  | none => (none, { t with misses := t.misses + 1 })
  | some i =>
    let slot := t.slots[i]
    (some slot.mapping,
      { t with
        slots := t.slots.set i { slot with stamp := t.clock + 1 }
        clock := t.clock + 1
        hits := t.hits + 1 })

/-- The place of the first of the lowest ages. -/
def firstLowest : List Nat → Nat
  | [] => 0
  | a :: ages => if ages.all (a ≤ ·) then 0 else firstLowest ages + 1

/-- The slot that gives way to a page without one. -/
def victim (t : Tlb) : Nat := firstLowest (t.slots.map Slot.age)

/-- The TLB with a mapping in it, and the place it went to: the page's own, or the victim's. -/
def insert (t : Tlb) (m : Mapping) : Nat × Tlb :=
  let i := match t.find? m.page with
    | some i => i.val
    | none => t.victim
  (i, { t with
    slots := t.slots.set i ⟨true, m, t.clock + 1⟩
    clock := t.clock + 1 })

/-- Invalidates the slot of an address and tells whether there was one. The slot keeps its
mapping. -/
def purge (t : Tlb) (a : Word) : Bool × Tlb :=
  match t.find? a.page with
  | none => (false, t)
  | some i =>
    (true, { t with slots := t.slots.set i { t.slots[i] with valid := false, stamp := 0 } })

/-- Empties every slot and restarts the clock; the counts of hits and misses stay. -/
def reset (t : Tlb) : Tlb :=
  { t with slots := List.replicate t.slots.length .empty, clock := 0 }

/-- The TLB with its counters at zero. -/
def clearCounters (t : Tlb) : Tlb := { t with hits := 0, misses := 0 }

end Tlb

end Processor64
