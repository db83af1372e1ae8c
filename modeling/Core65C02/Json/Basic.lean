/-!
# JSON values

A JSON text as a value. Numbers are told apart only as far as the records of this library need it:
a natural number, or some other number that is kept as it was written. A string literal may name
half of a surrogate pair; it is then well formed as text but stands for no string.
-/

namespace Core65C02

/-- A string literal of a JSON text. -/
structure Literal where
  /-- The string that the literal stands for, if its surrogates pair up. -/
  value? : Option String
  /-- Whether a character of the literal is written as an escape. -/
  escaped : Bool := false
deriving DecidableEq, Inhabited

/-- A JSON value. -/
inductive Json
  | null
  | bool (value : Bool)
  /-- A number written without sign, fraction and exponent. -/
  | natural (value : Nat)
  /-- Any other number, as it is written. -/
  | otherNumber (spelling : String)
  | text (literal : Literal)
  | list (items : List Json)
  /-- The members of an object in the order in which they are written. -/
  | object (members : List (Literal × Json))
deriving Inhabited

namespace Json

/-- The literal of a string. -/
def literal (s : String) : Literal := ⟨some s, false⟩

/-- The value of a string. -/
def ofString (s : String) : Json := .text (literal s)

/-- An object with the given members. -/
def ofMembers (members : List (String × Json)) : Json :=
  .object (members.map fun m => (literal m.1, m.2))

/-- A number that may be absent. -/
def ofNat? : Option Nat → Json
  | some n => .natural n
  | none => .null

/-- A list of strings. -/
def ofStrings (items : List String) : Json := .list (items.map ofString)

end Json

end Core65C02
