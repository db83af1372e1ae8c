import Core65C02.Json.Decoder
import Core65C02.Json.Reader
import Core65C02.Settings.Basic

/-!
# The written form of settings

A record in which every field has a default. A clock rate is a variant, of which only the custom one
carries a number.
-/

namespace Core65C02

namespace ClockRate

/-- The name of a rate that is no number. -/
def fixedNames : List (String × ClockRate) :=
  [("Unthrottled", unthrottled), ("Micro", micro), ("Small", small), ("Standard", standard),
   ("Performance", performance), ("Turbo", turbo)]

/-- A rate as a variant. -/
def toJson : ClockRate → Json
  | unthrottled => .ofString "Unthrottled"
  | micro => .ofString "Micro"
  | small => .ofString "Small"
  | standard => .ofString "Standard"
  | performance => .ofString "Performance"
  | turbo => .ofString "Turbo"
  | custom hz => .ofMembers [("Custom", .natural hz)]

/-- The rate of a variant; it need not be valid. -/
def ofJson? (value : Json) : Option ClockRate := do
  match ← value.variant? with
  | ("Custom", content) => return custom (← (← content).nat64?)
  | (name, content) =>
    guard (Json.isUnit content)
    fixedNames.lookup name

end ClockRate

namespace AssemblerSettings

/-- The settings of an assembler as a record. -/
def toJson (s : AssemblerSettings) : Json :=
  .ofMembers [("executable", .ofString s.executable), ("args", .ofStrings s.args)]

/-- The settings of an assembler from a record. -/
def ofJson? (value : Json) : Option AssemblerSettings := do
  match ← value.fields? [["executable"], ["args"]] with
  | [executable, args] =>
    let default : AssemblerSettings := {}
    return {
      executable := ← Json.withDefault Json.string? default.executable executable
      args := ← Json.withDefault (Json.list? Json.string?) default.args args }
  | _ => none

end AssemblerSettings

namespace Settings

/-- Settings as a record. -/
def toJson (s : Settings) : Json :=
  .ofMembers [("base_address", .natural s.baseAddress.toNat), ("clock", s.clock.toJson),
    ("max_steps", .ofNat? s.maxSteps), ("single_step", .bool s.singleStep),
    ("log_level", .ofString s.logLevel), ("record_metrics", .bool s.recordMetrics),
    ("assembler", s.assembler.toJson)]

/-- The settings of a record; the clock rate need not be valid. -/
def ofJson? (value : Json) : Option Settings := do
  let slots ← value.fields? [["base_address"], ["clock"], ["max_steps"], ["single_step"],
    ["log_level"], ["record_metrics"], ["assembler"]]
  match slots with
  | [baseAddress, clock, maxSteps, singleStep, logLevel, recordMetrics, assembler] =>
    let default : Settings := {}
    return {
      baseAddress := ← Json.withDefault Json.uint16? default.baseAddress baseAddress
      clock := ← Json.withDefault ClockRate.ofJson? default.clock clock
      maxSteps := ← Json.withDefault (Json.nullable? Json.nat64?) none maxSteps
      singleStep := ← Json.withDefault Json.bool? false singleStep
      logLevel := ← Json.withDefault Json.string? default.logLevel logLevel
      recordMetrics := ← Json.withDefault Json.bool? false recordMetrics
      assembler := ← Json.withDefault AssemblerSettings.ofJson? default.assembler assembler }
  | _ => none

/-- The valid settings of a text. -/
def parse (text : String) : Except SettingsError Settings :=
  match (Json.parse? text).bind ofJson? with
  | none => .error .malformed
  | some settings =>
    match settings.clock.validate with
    | .ok () => .ok settings
    | .error why => .error (.invalidClock why)

/-- The valid settings of a file, given by its bytes if it can be read. -/
def ofFile (content : Option (List UInt8)) : Except SettingsError Settings :=
  match content.bind fun bytes => String.fromUTF8? ⟨bytes.toArray⟩ with
  | none => .error .unreadable
  | some text => parse text

end Settings

end Core65C02
