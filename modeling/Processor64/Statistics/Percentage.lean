import Processor64.Text.Numeral

/-!
# Percentages

The share of a part in a whole, in hundredths of a percent. Every step is rounded to 53 significant
bits, ties going to the even neighbour: the two numbers, their quotient, and its product with 100.
The last value is then rounded to two places by the same rule.
-/

namespace Processor64

/-- The integer nearest to a quotient, the even one of two equally near. -/
def roundHalfEven (num den : Nat) : Nat :=
  let q := num / den
  let twice := 2 * (num % den)
  if twice < den then q
  else if den < twice then q + 1
  else if q % 2 = 0 then q
  else q + 1

/-- The number `mantissa * 2 ^ exponent`. -/
structure BinaryNumber where
  mantissa : Nat
  exponent : Int
  deriving DecidableEq, Repr

namespace BinaryNumber

/-- The value as a fraction: above the line. -/
def num (x : BinaryNumber) : Nat := x.mantissa <<< x.exponent.toNat

/-- The value as a fraction: below the line. -/
def den (x : BinaryNumber) : Nat := 1 <<< (-x.exponent).toNat

/-- The quotient in units of `2 ^ exponent`, as numerator and denominator. -/
def inUnits (num den : Nat) (exponent : Int) : Nat × Nat :=
  (num <<< (-exponent).toNat, den <<< exponent.toNat)

/-- The nearest number to a quotient with 53 significant bits. -/
def nearest (num den : Nat) : BinaryNumber :=
  if num = 0 then ⟨0, 0⟩
  else
    let e : Int := (num.log2 : Int) - den.log2 - 52
    let (n, d) := inUnits num den e
    let e := if d <<< 52 ≤ n then e else e - 1
    let (n, d) := inUnits num den e
    ⟨roundHalfEven n d, e⟩

end BinaryNumber

/-- The share of `part` in `whole` in hundredths of a percent, and none in nothing. -/
def percentHundredths (part whole : Nat) : Nat :=
  if whole = 0 then 0
  else
    let a := BinaryNumber.nearest part 1
    let b := BinaryNumber.nearest whole 1
    let share := BinaryNumber.nearest (a.num * b.den) (a.den * b.num)
    let percent := BinaryNumber.nearest (share.num * 100) share.den
    roundHalfEven (percent.num * 100) percent.den

/-- A percentage with two places. -/
def percentText (part whole : Nat) : String :=
  let h := percentHundredths part whole
  Numeral.decimal (h / 100) ++ "." ++ Numeral.decimal (h % 100 / 10) ++ Numeral.decimal (h % 10)

end Processor64
