/-!
# Numerals

The written forms of numbers: decimal, decimal with a sign, and hexadecimal after the marker `0x`,
bare or filled with zeros up to a number of digits. `unsigned?` reads digits of any base.
-/

namespace Processor64.Numeral

/-- A number in decimal digits. -/
def decimal (n : Nat) : String :=
  String.ofList (Nat.toDigits 10 n)

/-- A negative number carries a minus sign, any other number no sign. -/
def integer (i : Int) : String :=
  if i < 0 then "-" ++ decimal i.natAbs else decimal i.natAbs

/-- A distance carries its sign in both directions, and zero counts as forward. -/
def distance (i : Int) : String :=
  if i < 0 then "-" ++ decimal i.natAbs else "+" ++ decimal i.natAbs

/-- Two lower-case hexadecimal digits for a byte. -/
def octet (b : UInt8) : String :=
  String.ofList ((Nat.toDigits 16 b.toNat).leftpad 2 '0')

/-- A number in hexadecimal digits, as many as it needs. -/
def hex (n : Nat) : String :=
  "0x" ++ String.ofList (Nat.toDigits 16 n)

/-- At least `digits` hexadecimal digits, zeros in front. -/
def hexFilled (digits n : Nat) : String :=
  "0x" ++ String.ofList ((Nat.toDigits 16 n).leftpad digits '0')

/-- The value of a digit in a base of at most sixteen, in either case. -/
def digit? (base : Nat) (c : Char) : Option Nat :=
  let v :=
    if c.isDigit then c.toNat - 48
    else if 'a' ≤ c ∧ c ≤ 'f' then c.toNat - 87
    else if 'A' ≤ c ∧ c ≤ 'F' then c.toNat - 55
    else base
  if v < base then some v else none

/-- The number that digits are, highest first. -/
def ofDigits (base : Nat) (ds : List Nat) : Nat :=
  ds.foldl (fun n d => base * n + d) 0

/-- A number of at most 64 bits after an optional plus sign. -/
def unsigned? (base : Nat) (s : List Char) : Option Nat := do
  let s := match s with
    | '+' :: s => s
    | s => s
  guard (s ≠ [])
  let v := ofDigits base (← s.mapM (digit? base))
  guard (v < UInt64.size)
  return v

end Processor64.Numeral
