import Core65C02.Json.Decoder
import Core65C02.Opcode.Descriptor

/-!
# The written form of opcode descriptors

Mnemonics and addressing modes are written by their names.
-/

namespace Core65C02

/-- The mnemonic with exactly this name. -/
def Mnemonic.ofName? (text : String) : Option Mnemonic := all.find? fun m => m.name == text

/-- A name as a JSON value. -/
def AddressingMode.toJson (mode : AddressingMode) : Json := .ofString mode.name

namespace Descriptor

/-- A descriptor as a record. -/
def toJson (d : Descriptor) : Json :=
  .ofMembers [("opcode", .natural d.opcode.toNat), ("mnemonic", .ofString d.mnemonic.name),
    ("mode", d.mode.toJson),
    ("mode2", match d.secondMode with | some mode => mode.toJson | none => .null),
    ("bytes", .natural d.bytes.toNat), ("cycles", .natural d.cycles.toNat)]

/-- The descriptor of a record. -/
def ofJson? (value : Json) : Option Descriptor := do
  match ← value.fields? [["opcode"], ["mnemonic"], ["mode"], ["mode2"], ["bytes"], ["cycles"]] with
  | [opcode, mnemonic, mode, secondMode, bytes, cycles] =>
    let mode? (value : Json) : Option AddressingMode := value.string?.bind AddressingMode.ofName?
    return {
      opcode := ← Json.required Json.uint8? opcode
      mnemonic := ← Json.required (fun v => v.string?.bind Mnemonic.ofName?) mnemonic
      mode := ← Json.required mode? mode
      secondMode := ← Json.withDefault (Json.nullable? mode?) none secondMode
      bytes := ← Json.required Json.uint8? bytes
      cycles := ← Json.required Json.uint8? cycles }
  | _ => none

end Descriptor

end Core65C02
