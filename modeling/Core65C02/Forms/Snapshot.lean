import Core65C02.Json.Decoder
import Core65C02.Snapshot.Basic

/-!
# The written forms of snapshots

A raw state is a record whose fields may all be absent; the stack pointer goes by two names. A
snapshot is a record whose fields are all required, and its memory is one of two variants.
-/

namespace Core65C02

/-- A pair of numbers, written as a list of two. -/
def pair? : Json → Option (Nat × Nat)
  | .list [first, second] => do return (← first.nat64?, ← second.nat64?)
  | _ => none

namespace RawState

/-- A raw state as a record. -/
def toJson (raw : RawState) : Json :=
  .ofMembers [("pc", .ofNat? raw.pc), ("s", .ofNat? raw.s), ("a", .ofNat? raw.a),
    ("x", .ofNat? raw.x), ("y", .ofNat? raw.y), ("p", .ofNat? raw.p),
    ("ram", .list (raw.ram.map fun (address, value) => .list [.natural address, .natural value]))]

/-- The raw state of a record. -/
def ofJson? (value : Json) : Option RawState := do
  let slots ← value.fields? [["pc"], ["s", "sp"], ["a"], ["x"], ["y"], ["p"], ["ram"]]
  let register? := Json.withDefault (Json.nullable? Json.nat64?) none
  match slots with
  | [pc, s, a, x, y, p, ram] =>
    return {
      pc := ← register? pc, s := ← register? s, a := ← register? a, x := ← register? x
      y := ← register? y, p := ← register? p
      ram := ← Json.withDefault (Json.list? pair?) [] ram }
  | _ => none

end RawState

namespace MemoryView

/-- A view as a variant. -/
def toJson : MemoryView → Json
  | sparse overrides =>
    .ofMembers [("Sparse", .ofMembers (overrides.entries.map fun (address, value) =>
      (toString address.toNat, .natural value.toNat)))]
  | full bytes => .ofMembers [("Full", .list (bytes.toList.map fun v => .natural v.toNat))]

/-- The view of a variant. -/
def ofJson? (value : Json) : Option MemoryView := do
  match ← value.variant? with
  | ("Sparse", some (.object members)) =>
    let entries ← members.mapM fun (key, value) => do
      return (UInt16.ofNat (← Json.keyNatBelow? 65536 key), ← value.uint8?)
    return .sparse (.ofList entries)
  | ("Full", some items) =>
    let bytes ← items.list? Json.uint8?
    return .full bytes.toArray
  | _ => none

end MemoryView

namespace Snapshot

/-- A snapshot as a record. -/
def toJson (state : Snapshot) : Json :=
  .ofMembers [("pc", .natural state.pc.toNat), ("a", .natural state.a.toNat),
    ("x", .natural state.x.toNat), ("y", .natural state.y.toNat), ("s", .natural state.s.toNat),
    ("p", .natural state.p.toNat), ("memory", state.memory.toJson)]

/-- The snapshot of a record. -/
def ofJson? (value : Json) : Option Snapshot := do
  match ← value.fields? [["pc"], ["a"], ["x"], ["y"], ["s"], ["p"], ["memory"]] with
  | [pc, a, x, y, s, p, memory] =>
    return {
      pc := ← Json.required Json.uint16? pc
      a := ← Json.required Json.uint8? a
      x := ← Json.required Json.uint8? x
      y := ← Json.required Json.uint8? y
      s := ← Json.required Json.uint8? s
      p := ← Json.required Json.uint8? p
      memory := ← Json.required MemoryView.ofJson? memory }
  | _ => none

end Snapshot

end Core65C02
