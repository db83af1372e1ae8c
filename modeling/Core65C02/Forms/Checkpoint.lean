import Core65C02.Checkpoint.Basic
import Core65C02.Json.Decoder
import Core65C02.Json.Reader
import Core65C02.Json.Writer

/-!
# The written form of checkpoints

A record whose fields are all required. The image comes last but one, before its digest.
-/

namespace Core65C02

/-- The reason that a variant stands for. -/
def CheckpointReason.ofJson? (value : Json) : Option CheckpointReason := do
  let (name, content) ← value.variant?
  guard (Json.isUnit content)
  ofName? name

namespace Checkpoint

/-- A checkpoint as a record. -/
def toJson (c : Checkpoint) : Json :=
  .ofMembers [("id", .ofString c.id), ("name", .ofString c.name),
    ("created_at", .ofString c.createdAt.render), ("reason", .ofString c.reason.name),
    ("steps", .natural c.steps), ("cycles", .natural c.cycles), ("halted", .bool c.halted),
    ("pc", .natural c.pc.toNat), ("a", .natural c.a.toNat), ("x", .natural c.x.toNat),
    ("y", .natural c.y.toNat), ("s", .natural c.s.toNat), ("p", .natural c.p.toNat),
    ("memory_rle", .ofString c.image), ("memory_sha256", .ofString c.digest)]

/-- The checkpoint of a record. -/
def ofJson? (value : Json) : Option Checkpoint := do
  let slots ← value.fields? [["id"], ["name"], ["created_at"], ["reason"], ["steps"], ["cycles"],
    ["halted"], ["pc"], ["a"], ["x"], ["y"], ["s"], ["p"], ["memory_rle"], ["memory_sha256"]]
  match ← slots.mapM (fun slot => slot) with
  | [id, name, createdAt, reason, steps, cycles, halted, pc, a, x, y, s, p, image, digest] =>
    return {
      id := ← id.string?
      name := ← name.string?
      createdAt := ← createdAt.string?.bind Timestamp.parse?
      reason := ← CheckpointReason.ofJson? reason
      steps := ← steps.nat64?
      cycles := ← cycles.nat64?
      halted := ← halted.bool?
      pc := ← pc.uint16?
      a := ← a.uint8?
      x := ← x.uint8?
      y := ← y.uint8?
      s := ← s.uint8?
      p := ← p.uint8?
      image := ← image.string?
      digest := ← digest.string? }
  | _ => none

/-- The text that is kept on disk. -/
def save (c : Checkpoint) : String := c.toJson.renderIndented

/-- The checkpoint of a text. -/
def load (text : String) : Except StateError Checkpoint :=
  match (Json.parse? text).bind ofJson? with
  | some c => .ok c
  | none => .error .malformed

end Checkpoint

end Core65C02
