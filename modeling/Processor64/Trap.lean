import Processor64.Access
import Processor64.Text.Numeral

/-!
# Traps

A trap is a code and three 32-bit words of information. The memory traps put the address into the
outer two words and `Trap.address` reads it back; the instruction traps carry the instruction, its
group and its family.
-/

namespace Processor64

/-- The causes of a trap. -/
inductive TrapCode where
  | noTrap
  | illegalInstruction
  | alignment
  | physicalMemoryAddress
  | ioMemoryAddress
  | overflow
  | protection
  | privilegeViolation
  | tlbAccess
  | software
  deriving DecidableEq, Repr

namespace TrapCode

/-- Every cause, by number. -/
def all : List TrapCode :=
  [noTrap, illegalInstruction, alignment, physicalMemoryAddress, ioMemoryAddress, overflow,
    protection, privilegeViolation, tlbAccess, software]

/-- The number of a cause, by which its handler is found. -/
def number : TrapCode → Fin 10
  | noTrap => 0
  | illegalInstruction => 1
  | alignment => 2
  | physicalMemoryAddress => 3
  | ioMemoryAddress => 4
  | overflow => 5
  | protection => 6
  | privilegeViolation => 7
  | tlbAccess => 8
  | software => 9

/-- The name of a cause in messages. -/
def name : TrapCode → String
  | noTrap => "NoTrap"
  | illegalInstruction => "IllegalInstruction"
  | alignment => "Alignment"
  | physicalMemoryAddress => "PhysicalMemoryAddress"
  | ioMemoryAddress => "IoMemoryAddress"
  | overflow => "Overflow"
  | protection => "Protection"
  | privilegeViolation => "PrivilegeViolation"
  | tlbAccess => "TlbAccess"
  | software => "Software"

end TrapCode

/-- A cause with the three words that say more about it. -/
structure Trap where
  code : TrapCode
  info1 : BitVec 32
  info2 : BitVec 32
  info3 : BitVec 32
  deriving DecidableEq, Repr

namespace Trap

/-- A trap about an address: its low half first, its high half last. -/
def atAddress (code : TrapCode) (a : Word) (detail : Nat) : Trap :=
  ⟨code, a.extractLsb' 0 32, BitVec.ofNat 32 detail, a.extractLsb' 32 32⟩

theorem info_append_atAddress (code : TrapCode) (a : Word) (detail : Nat) :
    (atAddress code a detail).info3 ++ (atAddress code a detail).info1 = a :=
  @BitVec.extractLsb'_append_extractLsb' 32 32 a

/-- The access is not a multiple of its width. -/
def misaligned (a : Word) (w : Width) : Trap := atAddress .alignment a w.bytes

/-- The access reaches past physical memory. -/
def outsidePhysical (a : Word) (w : Width) : Trap := atAddress .physicalMemoryAddress a w.bytes

/-- Neither a device nor the backing memory answers for the access. -/
def unclaimedIo (a : Word) (w : Width) : Trap := atAddress .ioMemoryAddress a w.bytes

/-- The TLB has no mapping for the page. -/
def unmapped (a : Word) (k : AccessKind) : Trap := atAddress .tlbAccess a k.code

/-- The mapping does not grant the access. -/
def denied (a : Word) (k : AccessKind) : Trap := atAddress .protection a k.code

/-- The immediate of the instruction and the low half of its register. -/
def software (immediate value : BitVec 32) : Trap := ⟨.software, immediate, value, 0⟩

/-- The address that a memory trap is about. -/
def address (t : Trap) : Option Word :=
  match t.code with
  | .alignment | .physicalMemoryAddress | .ioMemoryAddress | .tlbAccess | .protection =>
    some (t.info3 ++ t.info1)
  | _ => none

/-- A trap as a message names it. -/
def text (t : Trap) : String :=
  t.code.name ++ " trap (info1=" ++ Numeral.hex t.info1.toNat ++ ", info2=" ++
    Numeral.hex t.info2.toNat ++ ", info3=" ++ Numeral.hex t.info3.toNat ++ ")"

end Trap

/-- A trap and the instruction it was raised at. -/
structure TrapRecord where
  trap : Trap
  address : Word
  deriving DecidableEq, Repr

/-- A trap as a message names it, with its place. -/
def TrapRecord.text (r : TrapRecord) : String :=
  r.trap.text ++ " at " ++ Numeral.hex r.address.toNat

end Processor64
