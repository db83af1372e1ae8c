import Core65C02.Cpu.Execute

/-!
# Checked arithmetic

Some sums, differences and shifts of an instruction are computed in a machine type in which nothing
wraps, so that a result which does not fit is an overflow, and so is a shift by all the bits of a
type or more. Here they are computed with a check of every single one, in the order and in the types
in which they occur. The main statements are that no check fails on any bytes, decimal or not, and
that the results are those without checks; the ranges from which this follows are kept as statements
of their own.
-/

namespace Core65C02

/-- What does not fit. -/
inductive Overflow
  /-- A sum of two numbers without a sign, in so many bits. -/
  | sum (width m n : Nat)
  /-- A difference of two numbers with a sign, in a word. -/
  | difference (m n : Int)
  /-- A shift by so many places of a number with no more bits than that. -/
  | shift (width amount : Nat)
deriving DecidableEq

/-- A result, if nothing on the way to it overflows. -/
abbrev Checked := Except Overflow

namespace Checked

/-- The sum of two numbers in a type of so many bits. -/
def add (width m n : Nat) : Checked Nat :=
  if m + n < 1 <<< width then .ok (m + n) else .error (.sum width m n)

/-- The difference of two numbers in a signed word. -/
def subtract (m n : Int) : Checked Int :=
  if -0x8000 ≤ m - n ∧ m - n < 0x8000 then .ok (m - n) else .error (.difference m n)

/-- What comes of a number in a type of so many bits when it is shifted by a number of places. -/
def shifted {α : Type} (width amount : Nat) (result : α) : Checked α :=
  if amount < width then .ok result else .error (.shift width amount)

/-- A computation goes on from a result that fits. -/
@[simp] theorem ok_bind {α β : Type} (a : α) (k : α → Checked β) :
    (.ok a : Checked α) >>= k = k a := rfl

/-- A sum that fits into the width is the exact sum. -/
theorem add_eq_ok {width m n : Nat} (h : m + n < 1 <<< width) : add width m n = .ok (m + n) :=
  if_pos h

/-- A difference that fits into 16 bits with a sign is the exact difference. -/
theorem subtract_eq_ok {m n : Int} (h : -0x8000 ≤ m - n ∧ m - n < 0x8000) :
    subtract m n = .ok (m - n) :=
  if_pos h

/-- A shift by less than the width gives its result. -/
theorem shifted_eq_ok {α : Type} {width amount : Nat} (h : amount < width) (result : α) :
    shifted width amount result = .ok result :=
  if_pos h

end Checked

open Checked

/-- Binary addition, with sums of words. -/
def addBinaryChecked (a b : UInt8) (carry : Bool) : Checked Sum := do
  let sum ← add 16 a.toNat b.toNat
  let sum ← add 16 sum carry.toNat
  let value := UInt8.ofNat sum
  return ⟨value, 0xFF < sum, signLost a b value⟩

/-- Binary subtraction is the addition of the complement. -/
def subtractBinaryChecked (a b : UInt8) (carry : Bool) : Checked Sum :=
  addBinaryChecked a (~~~b) carry

/-- Corrects the sum of two digits, in a byte. -/
def adjustDigitChecked (sum : Nat) : Checked Nat := if 9 < sum then add 8 sum 6 else .ok sum

/-- Decimal addition, with sums of bytes. -/
def addDecimalChecked (a b : UInt8) (carry : Bool) : Checked Sum := do
  let low ← add 8 (a.toNat % 16) (b.toNat % 16)
  let low ← add 8 low carry.toNat
  let low ← adjustDigitChecked low
  let highA ← shifted 8 4 (a.toNat / 16)
  let highB ← shifted 8 4 (b.toNat / 16)
  let high ← add 8 highA highB
  let high ← add 8 high (decide (0x0F < low)).toNat
  let high ← adjustDigitChecked high
  let top ← shifted 8 4 (high % 16 * 16)
  let value := UInt8.ofNat (top + low % 16)
  return ⟨value, 0x0F < high, signLost a b value⟩

/-- Takes `correction` off a difference if `borrowed` is negative. -/
def correctDifference (borrowed difference correction : Int) : Checked Int :=
  if borrowed < 0 then subtract difference correction else .ok difference

/-- Decimal subtraction, with differences of signed words. -/
def subtractDecimalChecked (a b : UInt8) (carry : Bool) : Checked Sum := do
  let borrow ← subtract 1 carry.toNat
  let difference ← subtract a.toNat b.toNat
  let binary ← subtract difference borrow
  let low ← subtract (a.toNat % 16 : Nat) (b.toNat % 16 : Nat)
  let low ← subtract low borrow
  let result ← correctDifference binary binary 0x60
  let result ← correctDifference low result 0x06
  return ⟨UInt8.ofInt result, 0 ≤ binary, isNegative ((a ^^^ b) &&& (a ^^^ UInt8.ofInt binary))⟩

/-- The byte that a modification makes of a byte and the carry. Counting wraps, and is not
checked. -/
def Modification.valueChecked (f : Modification) (carry : Bool) (old : UInt8) : Checked UInt8 :=
  match f with
  | .shiftLeft => shifted 8 1 (old <<< 1)
  | .shiftRight => shifted 8 1 (old >>> 1)
  | .rotateLeft => do return (← shifted 8 1 (old <<< 1)) ||| (if carry then 0x01 else 0)
  | .rotateRight => do
    let top ← shifted 8 7 (if carry then 0x80 else 0 : UInt8)
    return (← shifted 8 1 (old >>> 1)) ||| top
  | .increment | .decrement => .ok (f.value carry old)

/-- The bit that a bit instruction works on. -/
def Descriptor.bitIndexChecked (d : Descriptor) : Checked UInt8 := do
  return (← shifted 8 4 (d.opcode >>> 4)) &&& 0x07

/-- The byte whose only set bit is the one that a bit instruction works on. -/
def Descriptor.bitMaskChecked (d : Descriptor) : Checked UInt8 := do
  let index ← d.bitIndexChecked
  shifted 8 index.toNat (bitMask index)

section Ranges

variable (a b : UInt8) (carry : Bool)

/-- Two bytes and Carry add up to 511 at most. -/
theorem binarySum_le : binarySum a b carry ≤ 511 := by
  have ha := a.toNat_lt
  have hb := b.toNat_lt
  have hcarry := carry.toNat_le
  unfold binarySum
  omega

/-- Two digits of four bits and Carry, adjusted to a decimal digit, are 37 at most. -/
theorem adjustDigit_le {sum : Nat} (h : sum ≤ 31) : adjustDigit sum ≤ 37 := by
  unfold adjustDigit
  split <;> omega

/-- Digits above nine make the greatest sums. -/
theorem digitSums_le : lowDigitSum a b carry ≤ 37 ∧ highDigitSum a b carry ≤ 37 := by
  have ha := a.toNat_lt
  have hb := b.toNat_lt
  have hcarry := carry.toNat_le
  have hlow := (decide (0x0F < lowDigitSum a b carry)).toNat_le
  exact ⟨adjustDigit_le (by omega), adjustDigit_le (by omega)⟩

/-- What is borrowed is one if Carry is clear. -/
theorem borrow_eq : borrow carry = 1 - carry.toNat := by
  cases carry <;> rfl

/-- The differences of two bytes and of their low digits, with what is borrowed, fit into 16 bits
with a sign. -/
theorem differences_bounds :
    -256 ≤ binaryDifference a b carry ∧ binaryDifference a b carry ≤ 255 ∧
      -16 ≤ lowDigitDifference a b carry ∧ lowDigitDifference a b carry ≤ 15 := by
  have ha := a.toNat_lt
  have hb := b.toNat_lt
  have hcarry := carry.toNat_le
  unfold binaryDifference lowDigitDifference
  rw [borrow_eq]
  omega

/-- The same holds of the difference after the corrections of its digits. -/
theorem decimalDifference_bounds :
    -358 ≤ decimalDifference a b carry ∧ decimalDifference a b carry ≤ 255 := by
  obtain ⟨hleast, hgreatest, -, -⟩ := differences_bounds a b carry
  unfold decimalDifference
  split <;> split <;> omega

end Ranges

section Exactness

variable (a b : UInt8) (carry : Bool)

/-- Nothing overflows in a binary sum. -/
theorem addBinaryChecked_eq : addBinaryChecked a b carry = .ok (addBinary a b carry) := by
  have hsum := binarySum_le a b carry
  unfold binarySum at hsum
  unfold addBinaryChecked
  rw [add_eq_ok (by omega), ok_bind, add_eq_ok (by omega), ok_bind]
  rfl

/-- Nothing overflows in the adjustment of a digit. -/
theorem adjustDigitChecked_eq {sum : Nat} (h : sum ≤ 31) :
    adjustDigitChecked sum = .ok (adjustDigit sum) := by
  unfold adjustDigitChecked adjustDigit
  rw [add_eq_ok (by omega)]
  split <;> rfl

/-- Nothing overflows in a decimal sum, whatever the bytes are. -/
theorem addDecimalChecked_eq : addDecimalChecked a b carry = .ok (addDecimal a b carry) := by
  have ha := a.toNat_lt
  have hb := b.toNat_lt
  have hcarry := carry.toNat_le
  have hout := (decide (0x0F < lowDigitSum a b carry)).toNat_le
  have hlow : adjustDigitChecked (a.toNat % 16 + b.toNat % 16 + carry.toNat) =
      .ok (lowDigitSum a b carry) := adjustDigitChecked_eq (by omega)
  have hhigh : adjustDigitChecked
        (a.toNat / 16 + b.toNat / 16 + (decide (0x0F < lowDigitSum a b carry)).toNat) =
      .ok (highDigitSum a b carry) := adjustDigitChecked_eq (by omega)
  unfold addDecimalChecked
  rw [add_eq_ok (by omega), ok_bind, add_eq_ok (by omega), ok_bind, hlow, ok_bind,
    shifted_eq_ok (by decide), ok_bind, shifted_eq_ok (by decide), ok_bind, add_eq_ok (by omega),
    ok_bind, add_eq_ok (by omega), ok_bind, hhigh, ok_bind, shifted_eq_ok (by decide), ok_bind]
  rfl

/-- Nothing overflows in the correction of a difference that fits. -/
theorem correctDifference_eq {borrowed difference correction : Int}
    (h : -0x8000 ≤ difference - correction ∧ difference - correction < 0x8000) :
    correctDifference borrowed difference correction =
      .ok (difference - if borrowed < 0 then correction else 0) := by
  unfold correctDifference
  rw [subtract_eq_ok h]
  split
  · rfl
  · rw [Int.sub_zero]

/-- Nothing overflows in a decimal difference, whatever the bytes are. -/
theorem subtractDecimalChecked_eq :
    subtractDecimalChecked a b carry = .ok (subtractDecimal a b carry) := by
  have ha := a.toNat_lt
  have hb := b.toNat_lt
  have hcarry := carry.toNat_le
  obtain ⟨hleast, hgreatest, hlowLeast, hlowGreatest⟩ := differences_bounds a b carry
  have hbinary : subtract (a.toNat - b.toNat) (borrow carry) = .ok (binaryDifference a b carry) :=
    subtract_eq_ok (by unfold binaryDifference at hleast hgreatest; omega)
  have hlow : subtract ((a.toNat % 16 : Nat) - (b.toNat % 16 : Nat)) (borrow carry) =
      .ok (lowDigitDifference a b carry) :=
    subtract_eq_ok (by unfold lowDigitDifference at hlowLeast hlowGreatest; omega)
  unfold subtractDecimalChecked
  rw [subtract_eq_ok (by omega), ok_bind, ← borrow_eq, subtract_eq_ok (by omega), ok_bind, hbinary,
    ok_bind, subtract_eq_ok (by omega), ok_bind, hlow, ok_bind, correctDifference_eq (by omega),
    ok_bind, correctDifference_eq (by split <;> omega), ok_bind]
  rfl

/-- Nothing overflows where a byte is shifted, rotated, counted up or down. -/
theorem valueChecked_eq (f : Modification) (old : UInt8) :
    f.valueChecked carry old = .ok (f.value carry old) := by
  cases f <;> rfl

/-- Whatever the opcode is, the bit is one of eight. -/
theorem toNat_bitIndex_lt (d : Descriptor) : d.bitIndex.toNat < 8 := by
  have hmask : d.bitIndex.toNat = (d.opcode >>> 4).toNat &&& 0x07 := UInt8.toNat_and ..
  rw [hmask]
  exact Nat.lt_succ_of_le Nat.and_le_right

/-- Nothing overflows in the mask of a bit instruction. -/
theorem bitMaskChecked_eq (d : Descriptor) : d.bitMaskChecked = .ok (bitMask d.bitIndex) := by
  have hindex : d.bitIndexChecked = .ok d.bitIndex := rfl
  unfold Descriptor.bitMaskChecked
  rw [hindex, ok_bind, shifted_eq_ok (toNat_bitIndex_lt d)]

end Exactness

end Core65C02
