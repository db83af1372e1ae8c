import Core65C02.Cpu.Operation

/-!
# Arithmetic

Sums, differences and shifts of bytes with the flags that come with them. The intermediate results
are kept as numbers without a width, so that what they can become is a matter of proof. Decimal
arithmetic works on any bytes, also on those with a digit above nine.
-/

namespace Core65C02

/-- The outcome of an addition or a subtraction. -/
structure Sum where
  /-- The new byte. -/
  value : UInt8
  /-- The new Carry. -/
  carry : Bool
  /-- The new Overflow. -/
  overflow : Bool
deriving DecidableEq

/-- The exact sum of two bytes and a carry. -/
def binarySum (a b : UInt8) (carry : Bool) : Nat := a.toNat + b.toNat + carry.toNat

/-- Whether `result` has a sign that neither `a` nor `b` has. -/
def signLost (a b result : UInt8) : Bool := isNegative (~~~(a ^^^ b) &&& (a ^^^ result))

/-- Binary addition. -/
def addBinary (a b : UInt8) (carry : Bool) : Sum :=
  let sum := binarySum a b carry
  let value := UInt8.ofNat sum
  ⟨value, 0xFF < sum, signLost a b value⟩

/-- Binary subtraction is the addition of the complement. -/
def subtractBinary (a b : UInt8) (carry : Bool) : Sum := addBinary a (~~~b) carry

/-- Corrects the sum of two digits: above nine, six more, so that the carry leaves the nibble. -/
def adjustDigit (sum : Nat) : Nat := if 9 < sum then sum + 6 else sum

/-- The corrected sum of the low digits and the carry. -/
def lowDigitSum (a b : UInt8) (carry : Bool) : Nat :=
  adjustDigit (a.toNat % 16 + b.toNat % 16 + carry.toNat)

/-- The corrected sum of the high digits and the carry out of the low ones. -/
def highDigitSum (a b : UInt8) (carry : Bool) : Nat :=
  adjustDigit (a.toNat / 16 + b.toNat / 16 + (decide (0x0F < lowDigitSum a b carry)).toNat)

/-- Decimal addition, digit by digit. Overflow follows the binary rule on the decimal result. -/
def addDecimal (a b : UInt8) (carry : Bool) : Sum :=
  let high := highDigitSum a b carry
  let value := UInt8.ofNat (high % 16 * 16 + lowDigitSum a b carry % 16)
  ⟨value, 0x0F < high, signLost a b value⟩

/-- What a subtraction takes away besides its operand. -/
def borrow (carry : Bool) : Int := if carry then 0 else 1

/-- The exact difference of two bytes and a borrow. -/
def binaryDifference (a b : UInt8) (carry : Bool) : Int := a.toNat - b.toNat - borrow carry

/-- The exact difference of the low digits and a borrow. -/
def lowDigitDifference (a b : UInt8) (carry : Bool) : Int :=
  (a.toNat % 16 : Nat) - (b.toNat % 16 : Nat) - borrow carry

/-- The difference with six taken off each digit that had to borrow. -/
def decimalDifference (a b : UInt8) (carry : Bool) : Int :=
  binaryDifference a b carry
    - (if binaryDifference a b carry < 0 then 0x60 else 0)
    - (if lowDigitDifference a b carry < 0 then 0x06 else 0)

/-- Decimal subtraction. Carry and Overflow come from the binary difference. -/
def subtractDecimal (a b : UInt8) (carry : Bool) : Sum :=
  let binary := binaryDifference a b carry
  ⟨UInt8.ofInt (decimalDifference a b carry), 0 ≤ binary,
    isNegative ((a ^^^ b) &&& (a ^^^ UInt8.ofInt binary))⟩

/-- Bit 0 of a byte. -/
def isOdd (value : UInt8) : Bool := value &&& 0x01 != 0

/-- The function of two bytes that a logic operation computes. -/
def LogicFunction.apply (f : LogicFunction) (a b : UInt8) : UInt8 :=
  match f with
  | .conjunction => a &&& b
  | .disjunction => a ||| b
  | .exclusiveOr => a ^^^ b

/-- The byte that a modification makes of a byte and the carry. -/
def Modification.value (f : Modification) (carry : Bool) (old : UInt8) : UInt8 :=
  match f with
  | .shiftLeft => old <<< 1
  | .shiftRight => old >>> 1
  | .rotateLeft => (old <<< 1) ||| (if carry then 0x01 else 0)
  | .rotateRight => (old >>> 1) ||| (if carry then 0x80 else 0)
  | .increment => old + 1
  | .decrement => old - 1

/-- The carry after a modification: the bit that was shifted out, if bits are shifted. -/
def Modification.carry (f : Modification) (carry : Bool) (old : UInt8) : Bool :=
  match f with
  | .shiftLeft | .rotateLeft => isNegative old
  | .shiftRight | .rotateRight => isOdd old
  | .increment | .decrement => carry

/-- Whether a modification is charged a cycle when indexing crosses a page. -/
def Modification.paysForPageCrossing : Modification → Bool
  | .shiftLeft | .shiftRight | .rotateLeft | .rotateRight => true
  | .increment | .decrement => false

end Core65C02
