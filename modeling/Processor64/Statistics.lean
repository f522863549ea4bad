import Processor64.Trap

/-!
# Statistics

The counts that a machine keeps between two resets, and the report that adds the hits and misses
of the translation buffer to them.
-/

namespace Processor64

/-- What a processor counts while it runs. -/
structure Counters where
  /-- Cycles begun, with those that trapped. -/
  cycles : Nat := 0
  retired : Nat := 0
  arithmetic : Nat := 0
  memory : Nat := 0
  branch : Nat := 0
  system : Nat := 0
  loads : Nat := 0
  stores : Nat := 0
  branchesTaken : Nat := 0
  /-- Conditional stores that found no reservation. -/
  conditionalFailures : Nat := 0
  /-- Traps raised, by the number of their code. -/
  traps : Vector Nat 10 := Vector.replicate 10 0
  trapsVectored : Nat := 0
  deriving DecidableEq, Repr

namespace Counters

/-- One more trap of a cause. -/
def recordTrap (c : Counters) (code : TrapCode) : Counters :=
  { c with traps := c.traps.set code.number (c.traps[code.number] + 1) }

/-- How often a cause has trapped. -/
def trapsOf (c : Counters) (code : TrapCode) : Nat := c.traps[code.number]

/-- How often any cause has trapped. -/
def trapsTotal (c : Counters) : Nat := c.traps.foldl (· + ·) 0

end Counters

/-- The counters together with those of the TLB. -/
structure Statistics extends Counters where
  tlbHits : Nat := 0
  tlbMisses : Nat := 0
  deriving DecidableEq, Repr

end Processor64
