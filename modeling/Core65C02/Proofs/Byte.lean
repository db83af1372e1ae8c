/-!
# Properties of all bytes

A property that can be tested is decided for all bytes by testing the 256 of them.
-/

namespace Core65C02

/-- What holds of the bytes with the numbers below 256 holds of every byte. -/
theorem forall_byte_iff {P : UInt8 → Prop} : (∀ v : Fin 256, P (.ofNat v)) ↔ ∀ b, P b := by
  constructor
  · intro h b
    have hb := h ⟨b.toNat, b.toNat_lt⟩
    rwa [UInt8.ofNat_toNat] at hb
  · exact fun h v => h _

instance decidableForallByte (P : UInt8 → Prop) [DecidablePred P] : Decidable (∀ b, P b) :=
  decidable_of_iff _ forall_byte_iff

/-- A byte is an address in page zero. -/
theorem toUInt16_lt : ∀ b : UInt8, b.toUInt16 < 0x0100 := by
  decide +kernel

/-- To step down twice is to step down by two, around the range of a byte. -/
theorem sub_one_sub_one : ∀ b : UInt8, b - 1 - 1 = b - 2 := by
  decide +kernel

end Core65C02
