import Processor64.Word

/-!
# Control registers

Sixteen numbers, of which twelve name a control register and four are reserved.
-/

namespace Processor64

/-- The control registers that have a meaning. -/
inductive ControlRegister where
  | cpuInfo
  | shiftAmount
  | protectionId0
  | protectionId1
  | protectionId2
  | protectionId3
  | vectorAddress
  | trapStatus
  | trapCode
  | trapInfo1
  | trapInfo2
  | trapInfo3
  deriving DecidableEq, Repr

namespace ControlRegister

def all : List ControlRegister :=
  [cpuInfo, shiftAmount, protectionId0, protectionId1, protectionId2, protectionId3,
    vectorAddress, trapStatus, trapCode, trapInfo1, trapInfo2, trapInfo3]

def number : ControlRegister → BitVec 4
  | cpuInfo => 0
  | shiftAmount => 1
  | protectionId0 => 4
  | protectionId1 => 5
  | protectionId2 => 6
  | protectionId3 => 7
  | vectorAddress => 8
  | trapStatus => 9
  | trapCode => 10
  | trapInfo1 => 11
  | trapInfo2 => 12
  | trapInfo3 => 13

/-- No register for the reserved numbers and those from 16 on. -/
def ofNumber? (n : Nat) : Option ControlRegister :=
  all.find? fun r => r.number.toNat == n

/-- The name of a control register in listings and dumps. -/
def name : ControlRegister → String
  | cpuInfo => "CPU_INFO"
  | shiftAmount => "SHAMT"
  | protectionId0 => "PID0"
  | protectionId1 => "PID1"
  | protectionId2 => "PID2"
  | protectionId3 => "PID3"
  | vectorAddress => "IVA"
  | trapStatus => "TRAP_PSW"
  | trapCode => "TRAP_CODE"
  | trapInfo1 => "TRAP_INFO1"
  | trapInfo2 => "TRAP_INFO2"
  | trapInfo3 => "TRAP_INFO3"

end ControlRegister

end Processor64
