import Core65C02.Json.Decoder
import Core65C02.Status

/-!
# The written form of flags

A record with one truth value for each flag, all of them required.
-/

namespace Core65C02.StatusFlags

/-- The flags as a record. -/
def toJson (s : StatusFlags) : Json :=
  .ofMembers [("carry", .bool s.carry), ("zero", .bool s.zero),
    ("interrupt_disable", .bool s.interruptDisable), ("decimal_mode", .bool s.decimalMode),
    ("break_command", .bool s.breakCommand), ("overflow", .bool s.overflow),
    ("negative", .bool s.negative)]

/-- The flags of a record. -/
def ofJson? (value : Json) : Option StatusFlags := do
  let slots ← value.fields? [["carry"], ["zero"], ["interrupt_disable"], ["decimal_mode"],
    ["break_command"], ["overflow"], ["negative"]]
  match ← slots.mapM (Json.required Json.bool?) with
  | [carry, zero, interruptDisable, decimalMode, breakCommand, overflow, negative] =>
    return { carry, zero, interruptDisable, decimalMode, breakCommand, overflow, negative }
  | _ => none

end Core65C02.StatusFlags
