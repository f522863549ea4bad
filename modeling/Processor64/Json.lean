import Processor64.Text.Numeral

/-!
# Values of JSON texts

The value that a JSON text stands for, as far as its reader needs it. A number keeps its digits and
whether it is whole. A string keeps its escapes apart, since an escape may be half of a character:
`decode?` joins the halves, and there is no string where one is missing.
-/

namespace Processor64

/-- A character as it stands, or a 16-bit unit written as an escape. -/
inductive StringPiece where
  | char (c : Char)
  | unit (u : Nat)
  deriving DecidableEq, Repr

namespace StringPiece

/-- The first of the two units that stand for one character. -/
def isHighHalf (u : Nat) : Bool := 0xD800 ≤ u && u < 0xDC00

/-- The second of the two units that stand for one character. -/
def isLowHalf (u : Nat) : Bool := 0xDC00 ≤ u && u < 0xE000

/-- The character that two units stand for. -/
def joinHalves (high low : Nat) : Char :=
  Char.ofNat (0x10000 + (high - 0xD800) * 0x400 + (low - 0xDC00))

/-- The characters of a string, unless half of one is missing. -/
def decode? : List StringPiece → Option (List Char)
  | [] => some []
  | char c :: ps => (decode? ps).map (c :: ·)
  | unit u :: unit v :: ps =>
    if isHighHalf u then
      if isLowHalf v then (decode? ps).map (joinHalves u v :: ·) else none
    else if isLowHalf u then none
    else (decode? (unit v :: ps)).map (Char.ofNat u :: ·)
  | unit u :: ps =>
    if isHighHalf u || isLowHalf u then none else (decode? ps).map (Char.ofNat u :: ·)

end StringPiece

/-- A number as it is written. -/
structure NumberText where
  negative : Bool
  /-- The digits before a point or an exponent. -/
  digits : List Char
  /-- Whether there is neither a point nor an exponent. -/
  isWhole : Bool
  deriving DecidableEq, Repr

/-- A value as it is written: members stay in order, repeated names included. -/
inductive Json where
  | null
  | bool (b : Bool)
  | number (n : NumberText)
  | string (s : List StringPiece)
  | array (items : List Json)
  | object (members : List (List StringPiece × Json))
  deriving Repr

namespace Json

/-- The unsigned integer a value is, if it is one. -/
def unsigned? : Json → Option Nat
  | number n => if !n.negative && n.isWhole then Numeral.unsigned? 10 n.digits else none
  | _ => none

/-- The truth value a value is, if it is one. -/
def bool? : Json → Option Bool
  | bool b => some b
  | _ => none

/-- The text a value is, if it is one. -/
def text? : Json → Option String
  | string s => (StringPiece.decode? s).map String.ofList
  | _ => none

/-- Named members: those of an object, or the items of a list in the order of the names. Members
under other names are passed over. A name that occurs twice, a name that is no string, or an item
too many is refused. -/
def fields? (names : List String) : Json → Option (List (String × Json))
  | array items => if items.length ≤ names.length then some (names.zip items) else none
  | object members => do
    let named ← members.mapM fun (k, v) => (StringPiece.decode? k).map (String.ofList ·, v)
    let known := named.filter (names.contains ·.1)
    if (known.map (·.1)).Nodup then some known else none
  | _ => none

end Json

end Processor64
