import Processor64.Json.Parser

/-!
# Deserializers

A record says of its fields under which name each is written, how its value is read, and what it is
where it is not written (`Declaration`). A `Deserializer` reads texts, the values of fields, and
whole records by their declarations. `Deserializer.strict` is the one that the program runs with. It
takes an object or a list for a record, passes over members that are not declared, and refuses names
that occur twice.
-/

namespace Processor64

/-- A field as it is declared. -/
structure Field (α : Type) where
  name : String
  read : Json → Option α
  /-- What the field is where it is not written. -/
  default : α

/-- A record as a function of its fields, which are declared one after the other. -/
inductive Declaration : Type → Type 1 where
  | record {S : Type} (make : S) : Declaration S
  | field {α S : Type} (d : Declaration (α → S)) (f : Field α) : Declaration S

/-- What configurations are read with. -/
structure Deserializer where
  /-- The value that a text stands for. -/
  parse : String → Option Json
  bool : Json → Option Bool
  /-- A number of at most 64 bits. -/
  unsigned : Json → Option Nat
  /-- One of several constants by its name. -/
  variant : {α : Type} → List (String × α) → Json → Option α
  /-- A record by its declaration. -/
  record : {S : Type} → Declaration S → Json → Option S

/-- The field among named members. -/
def Field.ofMembers? {α : Type} (f : Field α) (members : List (String × Json)) : Option α :=
  match members.lookup f.name with
  | some v => f.read v
  | none => some f.default

namespace Declaration

/-- The names of the fields, in the order in which they are declared. -/
def names {S : Type} : Declaration S → List String
  | record _ => []
  | field d f => d.names ++ [f.name]

/-- The record whose fields are among named members. -/
def ofMembers? {S : Type} : Declaration S → List (String × Json) → Option S
  | record make, _ => some make
  | field d f, members => do
    let make ← d.ofMembers? members
    return make (← f.ofMembers? members)

/-- The record that an object or a list of values stands for. -/
def ofJson? {S : Type} (d : Declaration S) (v : Json) : Option S := do
  d.ofMembers? (← v.fields? d.names)

end Declaration

/-- A name, or an object with that name over nothing. -/
def Json.variant? {α : Type} (variants : List (String × α)) : Json → Option α
  | object [(k, null)] => (text? (string k)).bind fun name => variants.lookup name
  | v => v.text?.bind fun name => variants.lookup name

/-- The deserializer of the strict parser. -/
def Deserializer.strict : Deserializer where
  parse := Json.parse?
  bool := Json.bool?
  unsigned := Json.unsigned?
  variant := Json.variant?
  record := Declaration.ofJson?

end Processor64
