import Core65C02.Memory

/-!
# Words as numbers

A word is put together from two bytes by shifting one of them. As a number it is 256 times the
high byte plus the low byte, and it comes apart into two bytes again.
-/

namespace Core65C02

/-- The word with a high and a low byte. -/
def wordOf (high low : UInt8) : UInt16 := (high.toUInt16 <<< 8) ||| low.toUInt16

/-- The low byte of a word counts once and the high byte 256 times. -/
theorem toNat_wordOf (high low : UInt8) :
    (wordOf high low).toNat = low.toNat + 256 * high.toNat := by
  have hhigh := high.toNat_lt
  have hlow := low.toNat_lt
  have hshift : high.toNat <<< 8 = 256 * high.toNat := by
    rw [Nat.shiftLeft_eq]
    omega
  have hor : high.toNat <<< 8 ||| low.toNat = high.toNat <<< 8 + low.toNat :=
    (Nat.shiftLeft_add_eq_or_of_lt hlow high.toNat).symm
  rw [wordOf, UInt16.toNat_or, UInt16.toNat_shiftLeft, UInt8.toNat_toUInt16, UInt8.toNat_toUInt16]
  change high.toNat <<< 8 % 65536 ||| low.toNat = _
  rw [Nat.mod_eq_of_lt (by omega), hor, hshift, Nat.add_comm]

/-- The high byte of a word is its number of pages. -/
theorem toNat_highByte (w : UInt16) : (w >>> 8).toUInt8.toNat = w.toNat / 256 := by
  have hw := w.toNat_lt
  rw [UInt16.toNat_toUInt8, UInt16.toNat_shiftRight]
  change w.toNat >>> 8 % 256 = _
  rw [Nat.shiftRight_eq_div_pow]
  omega

/-- A word comes apart into its bytes. -/
theorem wordOf_bytes (w : UInt16) : wordOf (w >>> 8).toUInt8 w.toUInt8 = w := by
  apply UInt16.toNat_inj.mp
  rw [toNat_wordOf, toNat_highByte, UInt16.toNat_toUInt8]
  omega

end Core65C02
