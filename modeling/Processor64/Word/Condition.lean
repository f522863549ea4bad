import Processor64.Word

/-!
# Conditions

The comparisons between two words. A compare instruction names four of them in two bits, a branch
all eight in three.
-/

namespace Processor64

/-- The conditions comparisons and branches test. -/
inductive Condition where
  | equal
  | notEqual
  | less
  | lessOrEqual
  | greater
  | greaterOrEqual
  | lessUnsigned
  | greaterOrEqualUnsigned
  deriving DecidableEq, Repr

namespace Condition

/-- The four conditions of a comparison. -/
def ofCompareCode (c : BitVec 2) : Condition :=
  if c = 0 then equal else if c = 1 then less else if c = 2 then notEqual else lessOrEqual

/-- The eight conditions of a branch. -/
def ofBranchCode (c : BitVec 3) : Condition :=
  if c = 0 then equal
  else if c = 1 then notEqual
  else if c = 2 then less
  else if c = 3 then lessOrEqual
  else if c = 4 then greater
  else if c = 5 then greaterOrEqual
  else if c = 6 then lessUnsigned
  else greaterOrEqualUnsigned

/-- Whether the condition holds of two words, signed unless it says otherwise. -/
def holds (c : Condition) (a b : Word) : Bool :=
  match c with
  | equal => a == b
  | notEqual => a != b
  | less => a.slt b
  | lessOrEqual => a.sle b
  | greater => b.slt a
  | greaterOrEqual => b.sle a
  | lessUnsigned => a.ult b
  | greaterOrEqualUnsigned => b.ule a

/-- The letters that name a condition in a mnemonic. -/
def mnemonic : Condition → String
  | equal => "EQ"
  | notEqual => "NE"
  | less => "LT"
  | lessOrEqual => "LE"
  | greater => "GT"
  | greaterOrEqual => "GE"
  | lessUnsigned => "LTU"
  | greaterOrEqualUnsigned => "GEU"

end Condition

end Processor64
