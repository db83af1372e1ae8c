import Core65C02.Cpu.Arithmetic
import Mathlib.Data.Nat.Digits.Defs

/-!
# Numbers of several bytes

A list of bytes, the least significant first, stands for a number: without a sign, in two's
complement or, if the nibbles of the bytes are digits, in decimal. A number is taken apart at its
least significant byte, for this is where chains of additions begin.
-/

namespace Core65C02.Numeral

/-- The number that bytes stand for if each stands for a digit to a base. -/
def number (base : Nat) (digit : UInt8 → Nat) (bytes : List UInt8) : Nat :=
  Nat.ofDigits base (bytes.map digit)

/-- The number that bytes stand for. -/
def unsigned (bytes : List UInt8) : Nat := number 256 UInt8.toNat bytes

/-- The number that bytes stand for in two's complement. -/
def signed (bytes : List UInt8) : Int := (unsigned bytes : Int).bmod (256 ^ bytes.length)

/-- Whether a number has a two's complement of `n` bytes. -/
def Fits (n : Nat) (x : Int) : Prop :=
  -((256 ^ n : Nat) : Int) ≤ 2 * x ∧ 2 * x < (256 ^ n : Nat)

/-- Whether both nibbles of a byte are decimal digits. -/
def IsDecimal (b : UInt8) : Prop := b.toNat / 16 ≤ 9 ∧ b.toNat % 16 ≤ 9

instance (b : UInt8) : Decidable (IsDecimal b) := inferInstanceAs (Decidable (_ ∧ _))

/-- The number below a hundred whose digits are the nibbles of a byte. -/
def digitPair (b : UInt8) : Nat := b.toNat / 16 * 10 + b.toNat % 16

/-- The number whose decimal digits are the nibbles of bytes. -/
def decimal (bytes : List UInt8) : Nat := number 100 digitPair bytes

section Digits

variable {base : Nat} {digit : UInt8 → Nat}

/-- The first byte of a numeral is its lowest digit. -/
theorem number_cons (b : UInt8) (bytes : List UInt8) :
    number base digit (b :: bytes) = digit b + base * number base digit bytes := by
  simp [number, Nat.ofDigits_cons]

/-- The value of a numeral is below the power of the base that belongs to its length. -/
theorem number_lt (hbase : 1 < base) {bytes : List UInt8} (hdigit : ∀ b ∈ bytes, digit b < base) :
    number base digit bytes < base ^ bytes.length := by
  have hdigits : ∀ d ∈ bytes.map digit, d < base := by
    intro d hd
    obtain ⟨b, hb, rfl⟩ := List.mem_map.mp hd
    exact hdigit b hb
  simpa [number] using Nat.ofDigits_lt_base_pow_length hbase hdigits

/-- A number and the number of the complementary digits make up the greatest number of their
length. -/
theorem number_complement {bytes : List UInt8} (hdigit : ∀ b ∈ bytes, digit b < base) :
    number base (fun b => base - 1 - digit b) bytes + number base digit bytes + 1 =
      base ^ bytes.length := by
  induction bytes with
  | nil => rfl
  | cons b bytes ih =>
    rw [List.forall_mem_cons] at hdigit
    have hrest := congrArg (base * ·) (ih hdigit.2)
    simp only [Nat.mul_add] at hrest
    rw [number_cons, number_cons, List.length_cons, Nat.pow_succ, Nat.mul_comm (base ^ _), ← hrest]
    have hb := hdigit.1
    omega

/-- Bytes of one length stand for different numbers if they stand for different digits. -/
theorem eq_of_number_eq (hbase : 1 < base) {as bs : List UInt8} (hlength : as.length = bs.length)
    {P : UInt8 → Prop} (hP : ∀ b, P b → digit b < base)
    (hdigit : ∀ a b, P a → P b → digit a = digit b → a = b)
    (has : ∀ a ∈ as, P a) (hbs : ∀ b ∈ bs, P b) (h : number base digit as = number base digit bs) :
    as = bs := by
  have hdigits (bytes : List UInt8) (hbytes : ∀ b ∈ bytes, P b) :
      ∀ d ∈ bytes.map digit, d < base := by
    intro d hd
    obtain ⟨b, hb, rfl⟩ := List.mem_map.mp hd
    exact hP b (hbytes b hb)
  have hmap : as.map digit = bs.map digit :=
    Nat.ofDigits_inj_of_len_eq hbase (by simpa using hlength) (hdigits as has) (hdigits bs hbs) h
  induction as generalizing bs with
  | nil => exact (List.map_eq_nil_iff.mp hmap.symm).symm
  | cons a as ih =>
    cases bs with
    | nil => cases hlength
    | cons b bs =>
      rw [List.map_cons, List.map_cons, List.cons.injEq] at hmap
      rw [List.forall_mem_cons] at has hbs
      have hhead : a = b := hdigit a b has.1 hbs.1 hmap.1
      have htail : number base digit as = number base digit bs :=
        congrArg (Nat.ofDigits base) hmap.2
      rw [hhead, ih (Nat.succ.inj hlength) has.2 hbs.2 htail hmap.2]

end Digits

/-- The first byte is the lowest one of an unsigned number. -/
theorem unsigned_cons (b : UInt8) (bytes : List UInt8) :
    unsigned (b :: bytes) = b.toNat + 256 * unsigned bytes :=
  number_cons b bytes

/-- Bytes stand for an unsigned number below the power of 256 that belongs to their count. -/
theorem unsigned_lt (bytes : List UInt8) : unsigned bytes < 256 ^ bytes.length :=
  number_lt (by decide) fun b _ => b.toNat_lt

/-- As many bytes that stand for the same unsigned number are the same. -/
theorem eq_of_unsigned_eq {as bs : List UInt8} (hlength : as.length = bs.length)
    (h : unsigned as = unsigned bs) : as = bs :=
  eq_of_number_eq (P := fun _ => True) (by decide) hlength (fun b _ => b.toNat_lt)
    (fun _ _ _ _ => UInt8.toNat_inj.mp) (fun _ _ => trivial) (fun _ _ => trivial) h

/-- Bytes and their complements add up to the greatest number of their size. -/
theorem unsigned_complement (bytes : List UInt8) :
    unsigned (bytes.map (~~~·)) + unsigned bytes + 1 = 256 ^ bytes.length := by
  have h : number 256 (fun b => 256 - 1 - b.toNat) bytes + number 256 UInt8.toNat bytes + 1 =
      256 ^ bytes.length :=
    number_complement fun b _ => b.toNat_lt
  have hdigits : (fun b : UInt8 => 256 - 1 - b.toNat) = fun b => (~~~b).toNat := by
    funext b
    rw [UInt8.toNat_not]
  rw [hdigits] at h
  simpa [unsigned, number, Function.comp_def] using h

/-- The upper half of the numbers of a length stands for the negative ones. -/
theorem signed_eq (bytes : List UInt8) :
    signed bytes = if 2 * unsigned bytes < 256 ^ bytes.length then (unsigned bytes : Int)
      else unsigned bytes - (256 ^ bytes.length : Nat) := by
  have hlt := unsigned_lt bytes
  have hmod : (unsigned bytes : Int) % ((256 ^ bytes.length : Nat) : Int) = unsigned bytes :=
    Int.emod_eq_of_lt (by omega) (by omega)
  unfold signed
  rw [Int.bmod_def, hmod]
  by_cases hlow : 2 * unsigned bytes < 256 ^ bytes.length
  · rw [if_pos hlow, if_pos (by omega)]
  · rw [if_neg hlow, if_neg (by omega)]

/-- The count of the numbers of a size, one byte at least, is even. -/
theorem even_size {n : Nat} (hn : n ≠ 0) : 256 ^ n = 2 * (256 ^ n / 2) := by
  obtain ⟨m, rfl⟩ := Nat.exists_eq_succ_of_ne_zero hn
  rw [Nat.pow_succ]
  omega

/-- The sign is that of the other bytes. -/
theorem signed_cons (b : UInt8) {bytes : List UInt8} (hbytes : bytes ≠ []) :
    signed (b :: bytes) = b.toNat + 256 * signed bytes := by
  have hb := b.toNat_lt
  have heven := even_size (mt List.length_eq_zero_iff.mp hbytes)
  rw [signed_eq, signed_eq, unsigned_cons, List.length_cons]
  have hpow : 256 ^ (bytes.length + 1) = 256 * 256 ^ bytes.length := by
    rw [Nat.pow_succ, Nat.mul_comm]
  by_cases hlow : 2 * unsigned bytes < 256 ^ bytes.length
  · rw [if_pos hlow, if_pos (by omega)]
    push_cast
    rfl
  · rw [if_neg hlow, if_neg (by omega)]
    push_cast
    rw [pow_succ]
    ring

/-- One byte stands for itself as a signed number if bit 7 is clear, and for 256 less if it is
set. -/
theorem signed_singleton (b : UInt8) :
    signed [b] = if b.toNat < 128 then (b.toNat : Int) else b.toNat - 256 := by
  have hunsigned : unsigned [b] = b.toNat := by simp [unsigned, number]
  rw [signed_eq, hunsigned, List.length_singleton, Nat.pow_one]
  by_cases hlow : b.toNat < 128
  · rw [if_pos hlow, if_pos (by omega)]
  · rw [if_neg hlow, if_neg (by omega)]
    rfl

/-- The complement of all bytes turns a number around between zero and minus one. -/
theorem signed_complement {bytes : List UInt8} (hbytes : bytes ≠ []) :
    signed (bytes.map (~~~·)) = -1 - signed bytes := by
  have hsum := unsigned_complement bytes
  have heven := even_size (mt List.length_eq_zero_iff.mp hbytes)
  rw [signed_eq, signed_eq, List.length_map]
  by_cases hlow : 2 * unsigned bytes < 256 ^ bytes.length
  · rw [if_pos hlow, if_neg (by omega)]
    omega
  · rw [if_neg hlow, if_pos (by omega)]
    omega

/-- A number fits if it does without its least significant byte. -/
theorem fits_succ_iff {n : Nat} (hn : n ≠ 0) {b : UInt8} {x : Int} :
    Fits (n + 1) (b.toNat + 256 * x) ↔ Fits n x := by
  have hb := b.toNat_lt
  have heven := even_size hn
  unfold Fits
  rw [pow_succ]
  omega

/-- Bytes stand for a signed number that fits into as many bytes. -/
theorem fits_signed (bytes : List UInt8) : Fits bytes.length (signed bytes) := by
  have hlt := unsigned_lt bytes
  unfold Fits
  rw [signed_eq]
  by_cases hlow : 2 * unsigned bytes < 256 ^ bytes.length
  · rw [if_pos hlow]
    omega
  · rw [if_neg hlow]
    omega

end Core65C02.Numeral
