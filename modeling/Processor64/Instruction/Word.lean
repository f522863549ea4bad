import Processor64.Word

/-!
# Instruction words

The fields of a 32-bit instruction. Six of them make up the word from the top down (`pack`): the
group, the family, the register R, the qualifier, the register B and fifteen low bits. The others
lie across these.
-/

namespace Processor64

/-- The 32 bits an instruction is fetched as. -/
abbrev InstructionWord := BitVec 32

namespace InstructionWord

/-- The two top bits, which name one of four groups. -/
def group (w : InstructionWord) : BitVec 2 := w.extractLsb' 30 2

/-- The family within the group. -/
def family (w : InstructionWord) : BitVec 4 := w.extractLsb' 26 4

/-- The register most instructions write. -/
def r (w : InstructionWord) : BitVec 4 := w.extractLsb' 22 4

/-- The three bits that tell the forms of a family apart. -/
def qualifier (w : InstructionWord) : BitVec 3 := w.extractLsb' 19 3

/-- The register most instructions read. -/
def b (w : InstructionWord) : BitVec 4 := w.extractLsb' 15 4

/-- The fifteen low bits, divided up differently by each family. -/
def low (w : InstructionWord) : BitVec 15 := w.extractLsb' 0 15

/-- The word with these fields. -/
def pack (group : BitVec 2) (family r : BitVec 4) (qualifier : BitVec 3) (b : BitVec 4)
    (low : BitVec 15) : InstructionWord :=
  group ++ family ++ r ++ qualifier ++ b ++ low

/-- The width of a memory access. -/
def widthCode (w : InstructionWord) : BitVec 2 := w.extractLsb' 13 2

/-- The third register, where a form has one. -/
def a (w : InstructionWord) : BitVec 4 := w.extractLsb' 9 4

def bitPosition (w : InstructionWord) : BitVec 6 := w.extractLsb' 13 6

def imm13 (w : InstructionWord) : BitVec 13 := w.extractLsb' 0 13

def imm15 (w : InstructionWord) : BitVec 15 := w.low

def imm19 (w : InstructionWord) : BitVec 19 := w.extractLsb' 0 19

def imm20 (w : InstructionWord) : BitVec 20 := w.extractLsb' 0 20

/-- The lowest bit of a bit field. -/
def fieldPosition (w : InstructionWord) : BitVec 6 := w.extractLsb' 6 6

/-- One less than the length of a bit field. -/
def fieldLast (w : InstructionWord) : BitVec 6 := w.extractLsb' 0 6

end InstructionWord

end Processor64
