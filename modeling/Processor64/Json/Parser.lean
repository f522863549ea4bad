import Processor64.Json
import Processor64.Text.Numeral

/-!
# Reading JSON texts

A strict reader: one value with blanks around it and nothing else. Numbers have no leading zeros,
lists no trailing commas, strings no bare control characters. Each value that is entered uses up a
character, so the length of the text bounds the depth of the recursion.
-/

namespace Processor64.Json

/-- The four characters that may stand between the parts of a value. -/
def isBlank (c : Char) : Bool := c = ' ' || c = '\t' || c = '\n' || c = '\r'

/-- A text without the blanks it begins with. -/
def skipBlank (s : List Char) : List Char := s.dropWhile isBlank

/-- What is left after a word at the start. -/
def afterWord? : List Char → List Char → Option (List Char)
  | [], s => some s
  | c :: cs, d :: s => if c = d then afterWord? cs s else none
  | _ :: _, [] => none

/-- The code unit four hexadecimal digits stand for. -/
def unit? (a b c d : Char) : Option Nat :=
  ([a, b, c, d].mapM (Numeral.digit? 16)).map (Numeral.ofDigits 16)

/-- The character a letter after a backslash stands for. -/
def escaped? : Char → Option Char
  | '"' => some '"'
  | '\\' => some '\\'
  | '/' => some '/'
  | 'b' => some '\x08'
  | 'f' => some '\x0c'
  | 'n' => some '\n'
  | 'r' => some '\r'
  | 't' => some '\t'
  | _ => none

/-- A string after its opening quote, and what is left after its closing quote. -/
def string? : List Char → Option (List StringPiece × List Char)
  | [] => none
  | '"' :: s => some ([], s)
  | '\\' :: 'u' :: a :: b :: c :: d :: s => do
    let u ← unit? a b c d
    let (ps, s) ← string? s
    return (.unit u :: ps, s)
  | '\\' :: e :: s => do
    let c ← escaped? e
    let (ps, s) ← string? s
    return (.char c :: ps, s)
  | c :: s => do
    guard (0x20 ≤ c.toNat ∧ c ≠ '\\')
    let (ps, s) ← string? s
    return (.char c :: ps, s)

/-- A run of digits, at least one, and what is left after it. -/
def digits? (s : List Char) : Option (List Char × List Char) :=
  match s.takeWhile Char.isDigit with
  | [] => none
  | ds => some (ds, s.dropWhile Char.isDigit)

/-- What is left after a fraction, and whether there was one. -/
def fraction? : List Char → Option (Bool × List Char)
  | '.' :: s => (digits? s).map fun (_, s) => (true, s)
  | s => some (false, s)

/-- What is left after an exponent, and whether there was one. -/
def exponent? : List Char → Option (Bool × List Char)
  | c :: s =>
    if c = 'e' ∨ c = 'E' then
      let s := match s with
        | '+' :: s => s
        | '-' :: s => s
        | s => s
      (digits? s).map fun (_, s) => (true, s)
    else some (false, c :: s)
  | [] => some (false, [])

/-- A number at the start of a text: no digit follows a leading zero. -/
def number? (s : List Char) : Option (NumberText × List Char) := do
  let (negative, s) := match s with
    | '-' :: s => (true, s)
    | s => (false, s)
  let (ds, s) ← digits? s
  guard (ds.head? ≠ some '0' ∨ ds.length = 1)
  let (fraction, s) ← fraction? s
  let (exponent, s) ← exponent? s
  return (⟨negative, ds, !fraction && !exponent⟩, s)

mutual

/-- A value at the start of a text. The first argument bounds the recursion; one more than the
length of the text is enough. -/
def value? : Nat → List Char → Option (Json × List Char)
  | 0, _ => none
  | n + 1, s =>
    match skipBlank s with
    | '\x7b' :: s =>
      match skipBlank s with
      | '\x7d' :: s => some (.object [], s)
      | s => (members? n s).map fun (ms, s) => (.object ms, s)
    | '[' :: s =>
      match skipBlank s with
      | ']' :: s => some (.array [], s)
      | s => (items? n s).map fun (vs, s) => (.array vs, s)
    | '"' :: s => (string? s).map fun (ps, s) => (.string ps, s)
    | 'n' :: s => (afterWord? ['u', 'l', 'l'] s).map fun s => (.null, s)
    | 't' :: s => (afterWord? ['r', 'u', 'e'] s).map fun s => (.bool true, s)
    | 'f' :: s => (afterWord? ['a', 'l', 's', 'e'] s).map fun s => (.bool false, s)
    | s => (number? s).map fun (v, s) => (.number v, s)

/-- The items of a list, at least one, and what is left after its bracket. -/
def items? : Nat → List Char → Option (List Json × List Char)
  | 0, _ => none
  | n + 1, s => do
    let (v, s) ← value? n s
    match skipBlank s with
    | ',' :: s =>
      let (vs, s) ← items? n s
      return (v :: vs, s)
    | ']' :: s => return ([v], s)
    | _ => none

/-- The members of an object, at least one, and what is left after its brace. -/
def members? : Nat → List Char → Option (List (List StringPiece × Json) × List Char)
  | 0, _ => none
  | n + 1, s =>
    match skipBlank s with
    | '"' :: s => do
      let (k, s) ← string? s
      let s ← afterWord? [':'] (skipBlank s)
      let (v, s) ← value? n s
      match skipBlank s with
      | ',' :: s =>
        let (ms, s) ← members? n s
        return ((k, v) :: ms, s)
      | '\x7d' :: s => return ([(k, v)], s)
      | _ => none
    | _ => none

end

/-- The value that fills a text, but for blanks around it. -/
def parse? (text : String) : Option Json :=
  let s := text.toList
  match value? (s.length + 1) s with
  | some (v, s) => if (skipBlank s).isEmpty then some v else none
  | none => none

end Processor64.Json
