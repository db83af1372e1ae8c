import Core65C02.Conformance.Report
import Core65C02.Forms.Snapshot
import Core65C02.Json.Reader

/-!
# The written form of conformance cases

A file is a list of records; an access to the bus is a list of address, value and direction.
-/

namespace Core65C02.Conformance

/-- The access of a list of three. -/
def BusAccess.ofJson? : Json → Option BusAccess
  | .list [address, value, kind] => do
    return ⟨← address.nat64?, ← value.nat64?, ← kind.string?⟩
  | _ => none

/-- The case of a record. -/
def Case.ofJson? (value : Json) : Option Case := do
  match ← value.fields? [["name"], ["initial"], ["final"], ["cycles"]] with
  | [name, initial, expected, accesses] =>
    return {
      name := ← Json.required Json.string? name
      initial := ← Json.required RawState.ofJson? initial
      expected := ← Json.required RawState.ofJson? expected
      accesses := ← Json.withDefault (Json.list? BusAccess.ofJson?) [] accesses }
  | _ => none

/-- The case of a text. -/
def Case.parse (text : String) : Except StateError Case :=
  match (Json.parse? text).bind ofJson? with
  | some c => .ok c
  | none => .error .malformed

/-- The cases of a file, given by its bytes if it can be read. -/
def parseFile (content : Option (List UInt8)) : Except StateError (List Case) :=
  match content.bind fun bytes => String.fromUTF8? ⟨bytes.toArray⟩ with
  | none => .error .unreadable
  | some text =>
    match (Json.parse? text).bind (Json.list? Case.ofJson?) with
    | some cases => .ok cases
    | none => .error .malformed

/-- Runs the cases of a file. -/
def runFile (file : String) (content : Option (List UInt8)) : Except StateError Report := do
  Report.runCases { file } (← parseFile content)

end Core65C02.Conformance
