import Core65C02.Text.Hex

/-!
# Rejected states

Why a snapshot or a checkpoint is not accepted. A state is rejected before any processor is touched.
-/

namespace Core65C02

/-- What is wrong with an encoded memory image. -/
inductive Corruption
  /-- The text is not base64. -/
  | badText
  /-- The bytes end after a run marker. -/
  | endsAfterMarker
  /-- The bytes end after the length of a run. -/
  | endsInRun
deriving DecidableEq

/-- The wording of a corruption. -/
def Corruption.message : Corruption → String
  | badText => "base64: invalid text"
  | endsAfterMarker => "truncated RLE data"
  | endsInRun => "truncated RLE run"

/-- Why a state is rejected. -/
inductive StateError
  /-- A register is not given. -/
  | missingField (name : String)
  /-- A byte of memory is given for an address beyond the address space. -/
  | addressOutOfRange (address : Nat)
  /-- A value needs more bits than its register or byte has. -/
  | valueOutOfRange (field : String) (value bits : Nat)
  /-- A memory image has the wrong length. -/
  | memorySize (length : Nat)
  /-- A memory image is not the one that was recorded. -/
  | digestMismatch
  /-- A memory image cannot be decoded. -/
  | corrupt (why : Corruption)
  /-- The text of the state is no JSON text of the expected form. -/
  | malformed
  /-- The file of the state cannot be read. -/
  | unreadable
deriving DecidableEq

/-- The wording of a rejection. -/
def StateError.message : StateError → String
  | missingField name => "missing required field `" ++ name ++ "`"
  | addressOutOfRange address =>
    "memory address 0x" ++ Hex.minimal address ++ " is outside 0x0000-0xFFFF"
  | valueOutOfRange field value bits =>
    "value 0x" ++ Hex.minimal value ++ " for `" ++ field ++ "` does not fit in " ++
      toString bits ++ " bits"
  | memorySize length => "memory image is " ++ toString length ++ " bytes, expected 65536"
  | digestMismatch => "memory digest does not match the recorded SHA-256"
  | corrupt why => "corrupt memory encoding: " ++ why.message
  | malformed => "invalid state JSON"
  | unreadable => "state file I/O failed"

end Core65C02
