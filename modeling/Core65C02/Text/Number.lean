import Core65C02.Text.Hex

/-!
# Numbers that people type

A bounded number in a given radix: an optional plus sign and at least one digit, with any number of
leading zeros. Digits are looked at from left to right, so of several faults the first one is
reported.
-/

namespace Core65C02.Text

/-- Why a text is no number. -/
inductive NumberError
  /-- There is no character. -/
  | empty
  /-- A character is no digit, or a sign stands alone. -/
  | invalidDigit
  /-- The number is not below the bound. -/
  | tooLarge
deriving DecidableEq

/-- The wording of a fault. -/
def NumberError.message : NumberError → String
  | empty => "cannot parse integer from empty string"
  | invalidDigit => "invalid digit found in string"
  | tooLarge => "number too large to fit in target type"

/-- The value of a digit in a radix of at most sixteen. -/
def digit? (radix : Nat) (c : Char) : Option Nat :=
  (Hex.digitValue? c).filter fun value => value < radix

/-- The number that digits stand for when they follow digits for `n`. -/
def digitsAfter (radix bound n : Nat) : List Char → Except NumberError Nat
  | [] => .ok n
  | c :: rest =>
    match digit? radix c with
    | none => .error .invalidDigit
    | some d => if n * radix + d < bound then digitsAfter radix bound (n * radix + d) rest
                else .error .tooLarge

/-- The number below a bound that a text stands for. -/
def number (radix bound : Nat) : List Char → Except NumberError Nat
  | [] => .error .empty
  | ['+'] => .error .invalidDigit
  | '+' :: digits => digitsAfter radix bound 0 digits
  | digits => digitsAfter radix bound 0 digits

end Core65C02.Text
