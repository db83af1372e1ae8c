/-!
# Hexadecimal text

Digits are upper case in reports and lower case where bytes travel as text. A byte always takes two
digits and an address four; a number of any size takes as few as it needs.
-/

namespace Core65C02.Hex

/-- The upper-case digit for a value below sixteen. -/
def upperDigit (n : Nat) : Char :=
  if n < 10 then Char.ofNat (n + 48) else Char.ofNat (n + 55)

/-- The lower-case digit for a value below sixteen. -/
def lowerDigit (n : Nat) : Char :=
  if n < 10 then Char.ofNat (n + 48) else Char.ofNat (n + 87)

/-- The value of a digit of either case. -/
def digitValue? (c : Char) : Option Nat :=
  if '0' ≤ c ∧ c ≤ '9' then some (c.toNat - 48)
  else if 'A' ≤ c ∧ c ≤ 'F' then some (c.toNat - 55)
  else if 'a' ≤ c ∧ c ≤ 'f' then some (c.toNat - 87)
  else none

/-- The last `width` digits of a number, with zeros in front. -/
def fixed : (width : Nat) → Nat → List Char
  | 0, _ => []
  | width + 1, n => fixed width (n / 16) ++ [upperDigit (n % 16)]

/-- Two digits for a byte. -/
def byte (value : UInt8) : String := String.ofList (fixed 2 value.toNat)

/-- Four digits for an address. -/
def address (value : UInt16) : String := String.ofList (fixed 4 value.toNat)

/-- The number of digits a number needs, at least one. -/
def width (n : Nat) : Nat :=
  if n < 16 then 1 else width (n / 16) + 1

/-- As few digits as the number needs. -/
def minimal (n : Nat) : String := String.ofList (fixed (width n) n)

/-- Bytes as pairs of lower-case digits. -/
def ofBytes (bytes : List UInt8) : String :=
  String.ofList (bytes.flatMap fun b => [lowerDigit (b.toNat / 16), lowerDigit (b.toNat % 16)])

/-- Bytes from pairs of digits. -/
def pairs? : List Char → Option (List UInt8)
  | [] => some []
  | [_] => none
  | high :: low :: rest => do
    let h ← digitValue? high
    let l ← digitValue? low
    let bytes ← pairs? rest
    return UInt8.ofNat (16 * h + l) :: bytes

/-- The bytes that a text of digit pairs stands for. -/
def toBytes? (text : String) : Option (List UInt8) := pairs? text.toList

end Core65C02.Hex
