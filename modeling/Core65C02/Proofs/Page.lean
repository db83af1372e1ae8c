import Core65C02.Cpu.Operand

/-!
# Pages

The processor compares pages by masking addresses. Here a page is a number, and an index leads to
another page exactly if it carries out of the low byte of the address that it is added to, also
where the sum wraps around the end of the address space.
-/

namespace Core65C02

/-- The page in which an address lies. -/
def page (address : UInt16) : Nat := address.toNat / 256

/-- The high byte of an address is its page. -/
theorem toNat_and_pageMask (address : UInt16) : (address &&& 0xFF00).toNat = page address * 256 := by
  have hlt := address.toNat_lt
  have hmask : (0xFF00 : UInt16).toNat = (2 ^ 8 - 1) <<< 8 := rfl
  have hpage : page address * 256 = (address.toNat >>> 8) <<< 8 := by
    rw [Nat.shiftLeft_eq, Nat.shiftRight_eq_div_pow]
    rfl
  rw [UInt16.toNat_and, hmask, hpage]
  refine Nat.eq_of_testBit_eq fun i => ?_
  rw [Nat.testBit_and, Nat.testBit_shiftLeft, Nat.testBit_shiftLeft, Nat.testBit_two_pow_sub_one,
    Nat.testBit_shiftRight]
  by_cases hlow : 8 ≤ i
  · rw [show 8 + (i - 8) = i by omega]
    by_cases hhigh : i < 16
    · simp [hlow, show i - 8 < 8 by omega]
    · have hclear : address.toNat.testBit i = false := by
        have hpow : 2 ^ 16 ≤ 2 ^ i := Nat.pow_le_pow_right (by omega) (by omega)
        exact Nat.testBit_lt_two_pow (Nat.lt_of_lt_of_le hlt hpow)
      simp [hclear]
  · simp [hlow]

/-- Addresses differ after masking exactly if they lie in different pages. -/
theorem pagesDiffer_eq (a b : UInt16) : pagesDiffer a b = decide (page a ≠ page b) := by
  have hmask : a &&& 0xFF00 = b &&& 0xFF00 ↔ page a = page b := by
    rw [← UInt16.toNat_inj, toNat_and_pageMask, toNat_and_pageMask]
    omega
  rw [pagesDiffer, Bool.eq_iff_iff, bne_iff_ne, decide_eq_true_iff, ne_eq, ne_eq, hmask]

/-- Indexing crosses a page exactly if the index carries out of the low byte. -/
theorem pagesDiffer_add (base : UInt16) (index : UInt8) :
    pagesDiffer base (base + index.toUInt16) = decide (256 ≤ base.toNat % 256 + index.toNat) := by
  have hbase := base.toNat_lt
  have hindex := index.toNat_lt
  rw [pagesDiffer_eq, decide_eq_decide, page, page, UInt16.toNat_add, UInt8.toNat_toUInt16]
  omega

end Core65C02
