import Core65C02.Text.Blank
import Core65C02.Text.Number

/-!
# Addresses that people type

An address is written in decimal, or in hexadecimal after `0x`, `0X` or a dollar sign.
-/

namespace Core65C02

/-- A text that is no address. -/
structure AddressError where
  /-- The text without the blanks around it. -/
  text : String
  /-- What is wrong with its digits. -/
  cause : Text.NumberError
deriving DecidableEq

/-- The wording of the fault. -/
def AddressError.message (e : AddressError) : String :=
  "invalid address `" ++ e.text ++ "`: " ++ e.cause.message

/-- The radix of a written address and its digits. -/
def addressDigits : List Char → Nat × List Char
  | '0' :: 'x' :: digits | '0' :: 'X' :: digits | '$' :: digits => (16, digits)
  | digits => (10, digits)

/-- The address that a text stands for. -/
def parseAddress (text : String) : Except AddressError UInt16 :=
  let cs := Text.trimChars text.toList
  let (radix, digits) := addressDigits cs
  match Text.number radix 65536 digits with
  | .ok n => .ok (.ofNat n)
  | .error cause => .error ⟨String.ofList cs, cause⟩

end Core65C02
