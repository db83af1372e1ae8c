import Core65C02.Proofs.Arithmetic.Numeral
import Core65C02.Proofs.Byte

/-!
# Sums and differences of single bytes

The four ways to add and subtract bytes, as equations between numbers. A difference is the sum with
the complement of the byte that is taken away, so that addition and subtraction obey one law each
for binary and for decimal digits, with the carry as what does not fit. Overflow and the sign of a
binary result are told in two's complement.
-/

namespace Core65C02

open Numeral

/-- A binary sum and its carry make up the exact sum. -/
theorem addBinary_eq (a b : UInt8) (carry : Bool) :
    (addBinary a b carry).value.toNat + 256 * (addBinary a b carry).carry.toNat =
      a.toNat + b.toNat + carry.toNat := by
  have ha := a.toNat_lt
  have hb := b.toNat_lt
  have hcarry := carry.toNat_le
  have hvalue : (addBinary a b carry).value.toNat = binarySum a b carry % 256 := UInt8.toNat_ofNat'
  have hout : (addBinary a b carry).carry = decide (0xFF < binarySum a b carry) := rfl
  rw [hvalue, hout]
  unfold binarySum
  by_cases hlarge : 0xFF < a.toNat + b.toNat + carry.toNat
  · rw [decide_eq_true hlarge, Bool.toNat_true]
    omega
  · rw [decide_eq_false hlarge, Bool.toNat_false]
    omega

/-- A byte is negative if its most significant bit is set. -/
theorem isNegative_eq_msb : ∀ b : UInt8, isNegative b = b.toBitVec.msb := by
  decide +kernel

/-- A byte is negative if it is at least 128 as an unsigned number. -/
theorem isNegative_eq (b : UInt8) : isNegative b = decide (128 ≤ b.toNat) :=
  (isNegative_eq_msb b).trans (BitVec.msb_eq_decide b.toBitVec)

/-- As an unsigned number a byte is at least 128 if it is negative, and below otherwise. -/
theorem isNegative_bounds (b : UInt8) :
    128 * (isNegative b).toNat ≤ b.toNat ∧ b.toNat < 128 * (isNegative b).toNat + 128 := by
  have hb := b.toNat_lt
  rw [isNegative_eq]
  by_cases hhigh : 128 ≤ b.toNat
  · rw [decide_eq_true hhigh, Bool.toNat_true]
    omega
  · rw [decide_eq_false hhigh, Bool.toNat_false]
    omega

/-- Bit 7 counts negatively in two's complement. -/
theorem signed_singleton_eq (b : UInt8) :
    signed [b] = b.toNat - 256 * ((isNegative b).toNat : Int) := by
  obtain ⟨hlow, hhigh⟩ := isNegative_bounds b
  rw [signed_singleton]
  generalize isNegative b = negative at *
  cases negative with
  | false => rw [if_pos (by simpa using hhigh), Bool.toNat_false, Nat.cast_zero, mul_zero, sub_zero]
  | true => rw [if_neg (by simpa using hlow), Bool.toNat_true, Nat.cast_one, mul_one]

/-- A byte is negative if the signed number that it stands for is below zero. -/
theorem isNegative_iff (b : UInt8) : isNegative b = true ↔ signed [b] < 0 := by
  obtain ⟨hlow, hhigh⟩ := isNegative_bounds b
  rw [signed_singleton_eq]
  generalize isNegative b = negative at *
  cases negative with
  | false => simp
  | true =>
    simp at *
    omega

/-- The sign is lost if both operands have one and the result has the other. -/
theorem signLost_eq (a b result : UInt8) :
    signLost a b result = (isNegative a == isNegative b && isNegative a != isNegative result) := by
  unfold signLost
  simp only [isNegative_eq_msb, UInt8.toBitVec_and, UInt8.toBitVec_not, UInt8.toBitVec_xor,
    BitVec.msb_and, BitVec.msb_not, BitVec.msb_xor]
  cases a.toBitVec.msb <;> cases b.toBitVec.msb <;> cases result.toBitVec.msb <;> rfl

/-- Without Overflow the sum is exact in two's complement. With it the exact sum does not fit, and
the sum has the wrong sign. -/
theorem signed_addBinary (a b : UInt8) (carry : Bool) :
    ((addBinary a b carry).overflow = false →
      signed [(addBinary a b carry).value] = signed [a] + signed [b] + carry.toNat) ∧
    ((addBinary a b carry).overflow = true →
      ¬ Fits 1 (signed [a] + signed [b] + carry.toNat) ∧
        (signed [(addBinary a b carry).value] < 0 ↔ 0 ≤ signed [a] + signed [b] + carry.toNat)) := by
  have hoverflow : (addBinary a b carry).overflow = signLost a b (addBinary a b carry).value := rfl
  have hsum := addBinary_eq a b carry
  have hcarry := carry.toNat_le
  have hout := (addBinary a b carry).carry.toNat_le
  obtain ⟨halow, hahigh⟩ := isNegative_bounds a
  obtain ⟨hblow, hbhigh⟩ := isNegative_bounds b
  obtain ⟨hlow, hhigh⟩ := isNegative_bounds (addBinary a b carry).value
  rw [hoverflow, signLost_eq, signed_singleton_eq, signed_singleton_eq, signed_singleton_eq]
  unfold Fits
  generalize isNegative a = a', isNegative b = b',
    isNegative (addBinary a b carry).value = result' at *
  cases a' <;> cases b' <;> cases result' <;> simp at * <;> omega

/-- Overflow tells that the exact sum has no two's complement of one byte. -/
theorem overflow_addBinary_iff (a b : UInt8) (carry : Bool) :
    (addBinary a b carry).overflow = true ↔ ¬ Fits 1 (signed [a] + signed [b] + carry.toNat) := by
  obtain ⟨hexact, hlost⟩ := signed_addBinary a b carry
  refine ⟨fun h => (hlost h).1, fun h => ?_⟩
  by_contra hoverflow
  rw [← hexact (Bool.eq_false_of_not_eq_true hoverflow)] at h
  exact h (fits_signed _)

/-- Negative and Overflow together tell the sign of the exact sum. -/
theorem isNegative_xor_overflow_iff (a b : UInt8) (carry : Bool) :
    (isNegative (addBinary a b carry).value ^^ (addBinary a b carry).overflow) = true ↔
      signed [a] + signed [b] + carry.toNat < 0 := by
  obtain ⟨hexact, hlost⟩ := signed_addBinary a b carry
  cases hoverflow : (addBinary a b carry).overflow with
  | false => rw [Bool.xor_false, isNegative_iff, hexact hoverflow]
  | true => rw [Bool.xor_true, Bool.not_eq_true', ← Bool.not_eq_true, isNegative_iff,
      (hlost hoverflow).2, not_le]

/-- A sum of digits is corrected to a digit and a carry out of the nibble. -/
theorem adjustDigit_eq {sum : Nat} (hsum : sum ≤ 19) :
    adjustDigit sum % 16 ≤ 9 ∧
      adjustDigit sum % 16 + 10 * (decide (0x0F < adjustDigit sum)).toNat = sum := by
  unfold adjustDigit
  by_cases hlarge : 9 < sum
  · rw [if_pos hlarge, decide_eq_true (by omega), Bool.toNat_true]
    omega
  · rw [if_neg hlarge, decide_eq_false (by omega), Bool.toNat_false]
    omega

/-- A decimal sum has decimal digits and makes up the exact sum with its carry. -/
theorem addDecimal_eq {a b : UInt8} (ha : IsDecimal a) (hb : IsDecimal b) (carry : Bool) :
    IsDecimal (addDecimal a b carry).value ∧
      digitPair (addDecimal a b carry).value + 100 * (addDecimal a b carry).carry.toNat =
        digitPair a + digitPair b + carry.toNat := by
  obtain ⟨hahigh, halow⟩ := ha
  obtain ⟨hbhigh, hblow⟩ := hb
  have hcarry := carry.toNat_le
  obtain ⟨hlow, hlowSum⟩ : lowDigitSum a b carry % 16 ≤ 9 ∧
      lowDigitSum a b carry % 16 + 10 * (decide (0x0F < lowDigitSum a b carry)).toNat =
        a.toNat % 16 + b.toNat % 16 + carry.toNat := adjustDigit_eq (by omega)
  obtain ⟨hhigh, hhighSum⟩ : highDigitSum a b carry % 16 ≤ 9 ∧
      highDigitSum a b carry % 16 + 10 * (decide (0x0F < highDigitSum a b carry)).toNat =
        a.toNat / 16 + b.toNat / 16 + (decide (0x0F < lowDigitSum a b carry)).toNat :=
    adjustDigit_eq (by have := (decide (0x0F < lowDigitSum a b carry)).toNat_le; omega)
  have hvalue : (addDecimal a b carry).value.toNat =
      highDigitSum a b carry % 16 * 16 + lowDigitSum a b carry % 16 := by
    refine UInt8.toNat_ofNat'.trans (Nat.mod_eq_of_lt ?_)
    omega
  have hout : (addDecimal a b carry).carry = decide (0x0F < highDigitSum a b carry) := rfl
  have hdigits : (highDigitSum a b carry % 16 * 16 + lowDigitSum a b carry % 16) / 16 =
        highDigitSum a b carry % 16 ∧
      (highDigitSum a b carry % 16 * 16 + lowDigitSum a b carry % 16) % 16 =
        lowDigitSum a b carry % 16 := by
    omega
  unfold IsDecimal digitPair
  rw [hvalue, hout, hdigits.1, hdigits.2]
  omega

/-- A decimal difference has decimal digits and makes up the exact sum with the complement. -/
theorem subtractDecimal_eq {a b : UInt8} (ha : IsDecimal a) (hb : IsDecimal b) (carry : Bool) :
    IsDecimal (subtractDecimal a b carry).value ∧
      digitPair (subtractDecimal a b carry).value +
          100 * (subtractDecimal a b carry).carry.toNat =
        digitPair a + (99 - digitPair b) + carry.toNat := by
  obtain ⟨hahigh, halow⟩ := ha
  obtain ⟨hbhigh, hblow⟩ := hb
  have hvalue : (subtractDecimal a b carry).value.toNat =
      ((decimalDifference a b carry) % 256).toNat % 256 := UInt8.toNat_ofNat'
  have hout : (subtractDecimal a b carry).carry = decide (0 ≤ binaryDifference a b carry) := rfl
  have hborrow : borrow carry = 1 - (carry.toNat : Int) := by cases carry <;> rfl
  have hcarry := carry.toNat_le
  unfold IsDecimal digitPair
  rw [hvalue, hout]
  unfold decimalDifference binaryDifference lowDigitDifference
  rw [hborrow]
  -- each digit has borrowed or not, and only then is six taken off
  by_cases hdifference : (a.toNat : Int) - b.toNat - (1 - carry.toNat) < 0
  · rw [if_pos hdifference, decide_eq_false (by omega), Bool.toNat_false]
    split <;> omega
  · rw [if_neg hdifference, decide_eq_true (by omega), Bool.toNat_true]
    split <;> omega

end Core65C02
