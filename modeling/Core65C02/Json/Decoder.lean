import Core65C02.Json.Basic

/-!
# Decoding records

How values of this library are read off JSON values. A record may be written as an object or as the
list of its fields in order. Members that name no field are ignored; a field that is named twice is
an error. A list may leave out fields at its end, which are then absent.
-/

namespace Core65C02.Json

/-- A natural number below a bound. -/
def natBelow? (bound : Nat) : Json → Option Nat
  | natural n => if n < bound then some n else none
  | _ => none

/-- A number of 64 bits. -/
def nat64? : Json → Option Nat := natBelow? (1 <<< 64)

/-- A number of 16 bits. -/
def uint16? (value : Json) : Option UInt16 := (natBelow? 65536 value).map UInt16.ofNat

/-- A number of 8 bits. -/
def uint8? (value : Json) : Option UInt8 := (natBelow? 256 value).map UInt8.ofNat

/-- A truth value. -/
def bool? : Json → Option Bool
  | bool b => some b
  | _ => none

/-- A string. -/
def string? : Json → Option String
  | text l => l.value?
  | _ => none

/-- A list whose items are all decoded. -/
def list? {α : Type} (item? : Json → Option α) : Json → Option (List α)
  | list items => items.mapM item?
  | _ => none

/-- A value that may be absent: `null` stands for its absence. -/
def nullable? {α : Type} (value? : Json → Option α) : Json → Option (Option α)
  | null => some none
  | value => (value? value).map some

/-- Puts a value into the slot at a position, which has to be empty. -/
def fill : List (Option Json) → Nat → Json → Option (List (Option Json))
  | [], _, _ => none
  | none :: slots, 0, value => some (some value :: slots)
  | some _ :: _, 0, _ => none
  | slot :: slots, position + 1, value => (fill slots position value).map (slot :: ·)

/-- Distributes members to the fields that their keys name. -/
def distribute (fields : List (List String)) :
    List (Option Json) → List (Literal × Json) → Option (List (Option Json))
  | slots, [] => some slots
  | slots, (key, value) :: rest => do
    let name ← key.value?
    match fields.findIdx? fun names => names.contains name with
    | none => distribute fields slots rest
    | some position => distribute fields (← fill slots position value) rest

/-- The values of the fields of a record, each of which has one or more names. -/
def fields? (fields : List (List String)) : Json → Option (List (Option Json))
  | object members => distribute fields (fields.map fun _ => none) members
  | list items =>
    if items.length ≤ fields.length then
      some (items.map some ++ List.replicate (fields.length - items.length) none)
    else none
  | _ => none

/-- A field that has to be present. -/
def required {α : Type} (value? : Json → Option α) (slot : Option Json) : Option α :=
  slot.bind value?

/-- A field that takes a default when it is absent. -/
def withDefault {α : Type} (value? : Json → Option α) (default : α) (slot : Option Json) :
    Option α :=
  match slot with
  | some value => value? value
  | none => some default

/-- A variant of a sum, written as its name alone or as an object with its name as the only key. -/
def variant? : Json → Option (String × Option Json)
  | text l => l.value?.map fun name => (name, none)
  | object [(key, value)] => key.value?.map fun name => (name, some value)
  | _ => none

/-- A variant that carries nothing: `null` is all that may stand beside its name. -/
def isUnit : Option Json → Bool
  | none | some null => true
  | some _ => false

/-- A natural number written as the key of a member: plain digits without a leading zero. -/
def keyNatBelow? (bound : Nat) (key : Literal) : Option Nat := do
  guard !key.escaped
  let digits := (← key.value?).toList
  guard (!digits.isEmpty && digits.all fun c => '0' ≤ c && c ≤ '9')
  guard (digits.head? != some '0' || digits.length == 1)
  let n := digits.foldl (fun n c => n * 10 + (c.toNat - 48)) 0
  guard (n < bound)
  return n

/-- The member of an object with a name, the last one if there are several. -/
def member? (name : String) : Json → Option Json
  | object members =>
    (members.reverse.find? fun m => m.1.value? == some name).map (·.2)
  | _ => none

end Core65C02.Json
