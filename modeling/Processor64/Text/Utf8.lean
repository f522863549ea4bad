/-!
# Reading UTF-8

Bytes as characters, where bytes that are not UTF-8 become replacement characters: one for each
longest run that could still have begun a character.
-/

namespace Processor64.Utf8

/-- A character begun: how many bytes it lacks, the range of the next, and its bits so far. -/
structure Begun where
  lacking : Nat
  lowest : Nat
  highest : Nat
  bits : Nat

/-- The character that stands for what no character can be read from. -/
def replacement : Char := '\ufffd'

/-- What a first byte above ASCII begins. -/
def begin? (b : Nat) : Option Begun :=
  if 0xC2 ≤ b ∧ b ≤ 0xDF then some ⟨1, 0x80, 0xBF, b - 0xC0⟩
  else if b = 0xE0 then some ⟨2, 0xA0, 0xBF, 0⟩
  else if b = 0xED then some ⟨2, 0x80, 0x9F, 0xD⟩
  else if 0xE1 ≤ b ∧ b ≤ 0xEF then some ⟨2, 0x80, 0xBF, b - 0xE0⟩
  else if b = 0xF0 then some ⟨3, 0x90, 0xBF, 0⟩
  else if 0xF1 ≤ b ∧ b ≤ 0xF3 then some ⟨3, 0x80, 0xBF, b - 0xF0⟩
  else if b = 0xF4 then some ⟨3, 0x80, 0x8F, 4⟩
  else none

/-- The characters that one byte completes or rules out, and what it leaves begun. -/
def first (b : Nat) : List Char × Option Begun :=
  if b < 0x80 then ([Char.ofNat b], none)
  else
    match begin? b with
    | some p => ([], some p)
    | none => ([replacement], none)

/-- What a byte adds to a character begun: it goes on, it ends, or it was no character. -/
def next (p : Begun) (b : Nat) : List Char × Option Begun :=
  if p.lowest ≤ b ∧ b ≤ p.highest then
    let bits := p.bits * 64 + b % 64
    if p.lacking = 1 then ([Char.ofNat bits], none)
    else ([], some ⟨p.lacking - 1, 0x80, 0xBF, bits⟩)
  else
    let (cs, q) := first b
    (replacement :: cs, q)

/-- The characters of some bytes, the first of which may go on with one begun. -/
def decodeFrom : Option Begun → List UInt8 → List Char
  | none, [] => []
  | some _, [] => [replacement]
  | state, b :: bs =>
    let (cs, state) := match state with
      | none => first b.toNat
      | some p => next p b.toNat
    cs ++ decodeFrom state bs

/-- The text some bytes hold, with replacements where they hold none. -/
def decode (bs : List UInt8) : String := String.ofList (decodeFrom none bs)

end Processor64.Utf8
