import Processor64.Word

/-!
# Arithmetic and logic

The five binary operations of the processor. Sums and differences wrap, unless `checked` asks for
`none` where the exact result is no signed word. The logical operations take `Modifiers`, which
complement the second operand or the result.
-/

namespace Processor64

/-- The operations on two words. -/
inductive BinaryOp where
  | add
  | subtract
  | and
  | or
  | xor
  deriving DecidableEq, Repr

/-- What a logical operation does besides: complement an operand, negate its result. -/
structure Modifiers where
  complement : Bool
  negate : Bool
  deriving DecidableEq, Repr

namespace Word

/-- The sum, unless overflow is checked and the signed sum does not fit. -/
def add (a b : Word) (checked : Bool) : Option Word :=
  if checked && BitVec.saddOverflow a b then none else some (a + b)

/-- The difference, unless overflow is checked and the signed difference does not fit. -/
def subtract (a b : Word) (checked : Bool) : Option Word :=
  if checked && BitVec.ssubOverflow a b then none else some (a - b)

/-- Left shifts drop the high bits, right shifts copy the sign. -/
def shift (b : Word) (left : Bool) (amount : Nat) : Word :=
  if left then b <<< (amount % 64) else b.sshiftRight (amount % 64)

/-- Only the sum is checked, never the shift. -/
def shiftAdd (b : Word) (left : Bool) (amount : Nat) (a : Word) (checked : Bool) : Option Word :=
  add (shift b left amount) a checked

end Word

namespace BinaryOp

/-- Addition and subtraction have no logical reading and count as zero here. -/
def logic (op : BinaryOp) (a b : Word) (m : Modifiers) : Word :=
  let b := if m.complement then ~~~b else b
  let v := match op with
    | and => a &&& b
    | or => a ||| b
    | xor => a ^^^ b
    | add | subtract => 0
  if m.negate then ~~~v else v

/-- `none` is a signed overflow, which only checked sums and differences have. -/
def apply (op : BinaryOp) (a b : Word) (m : Modifiers) (checked : Bool) : Option Word :=
  match op with
  | add => Word.add a b checked
  | subtract => Word.subtract a b checked
  | and | or | xor => some (op.logic a b m)

/-- Sums and differences have no modifiers, and an exclusive or complements only its result. -/
def accepts : BinaryOp → Modifiers → Bool
  | add, m | subtract, m => !m.complement && !m.negate
  | xor, m => !m.complement
  | and, _ | or, _ => true

end BinaryOp

end Processor64
