import Core65C02.Text.Hex

/-!
# Digits of fixed width

A byte always takes two digits and an address four, and different numbers have different digits. So
where a text is made of digits and of what stands between them, its length says where they are, and
they say which number it is.
-/

namespace Core65C02.Hex

/-- Different values have different digits. -/
theorem upperDigit_inj : ∀ m < 16, ∀ n < 16, upperDigit m = upperDigit n → m = n := by
  decide

/-- No digit is an end of line. -/
theorem upperDigit_ne_newline : ∀ n < 16, upperDigit n ≠ '\n' := by
  decide

/-- A number is written with as many digits as are asked for. -/
@[simp] theorem length_fixed (width n : Nat) : (fixed width n).length = width := by
  induction width generalizing n with
  | zero => rfl
  | succ width ih => rw [fixed, List.length_append, ih, List.length_singleton]

/-- There is no end of line among the digits of a number. -/
theorem newline_notMem_fixed (width n : Nat) : '\n' ∉ fixed width n := by
  induction width generalizing n with
  | zero => exact List.not_mem_nil
  | succ width ih =>
    rw [fixed, List.mem_append, List.mem_singleton, not_or]
    exact ⟨ih (n / 16), (upperDigit_ne_newline _ (Nat.mod_lt n (by decide))).symm⟩

/-- Equal digits are equal up to the last one, and the last one is equal too. -/
theorem fixed_succ_inj {width m n : Nat} (h : fixed (width + 1) m = fixed (width + 1) n) :
    fixed width (m / 16) = fixed width (n / 16) ∧ m % 16 = n % 16 := by
  obtain ⟨hfront, hlast⟩ := List.append_inj' h rfl
  refine ⟨hfront, upperDigit_inj _ (Nat.mod_lt m (by decide)) _ (Nat.mod_lt n (by decide)) ?_⟩
  exact List.singleton_inj.mp hlast

/-- A byte takes two characters. -/
@[simp] theorem length_toList_byte (value : UInt8) : (byte value).toList.length = 2 := by
  rw [byte, String.toList_ofList, length_fixed]

/-- An address takes four characters. -/
@[simp] theorem length_toList_address (value : UInt16) : (address value).toList.length = 4 := by
  rw [address, String.toList_ofList, length_fixed]

/-- There is no end of line in the text of a byte. -/
theorem newline_notMem_byte (value : UInt8) : '\n' ∉ (byte value).toList := by
  rw [byte, String.toList_ofList]
  exact newline_notMem_fixed 2 _

/-- There is no end of line in the text of an address. -/
theorem newline_notMem_address (value : UInt16) : '\n' ∉ (address value).toList := by
  rw [address, String.toList_ofList]
  exact newline_notMem_fixed 4 _

/-- Two digits tell which byte it is. -/
theorem byte_inj {v w : UInt8} : byte v = byte w ↔ v = w := by
  refine ⟨fun h => ?_, fun h => h ▸ rfl⟩
  rw [← String.toList_inj, byte, byte, String.toList_ofList, String.toList_ofList] at h
  obtain ⟨h, hlow⟩ := fixed_succ_inj h
  obtain ⟨-, hhigh⟩ := fixed_succ_inj h
  have hv := v.toNat_lt
  have hw := w.toNat_lt
  exact UInt8.toNat_inj.mp (by omega)

/-- Four digits tell which address it is. -/
theorem address_inj {a b : UInt16} : address a = address b ↔ a = b := by
  refine ⟨fun h => ?_, fun h => h ▸ rfl⟩
  rw [← String.toList_inj, address, address, String.toList_ofList, String.toList_ofList] at h
  obtain ⟨h, h0⟩ := fixed_succ_inj h
  obtain ⟨h, h1⟩ := fixed_succ_inj h
  obtain ⟨h, h2⟩ := fixed_succ_inj h
  obtain ⟨-, h3⟩ := fixed_succ_inj h
  have ha := a.toNat_lt
  have hb := b.toNat_lt
  exact UInt16.toNat_inj.mp (by omega)

/-- What is written behind a byte does not blur it. -/
theorem byte_append_inj {v w : UInt8} {s t : String} :
    byte v ++ s = byte w ++ t ↔ v = w ∧ s = t := by
  rw [← String.toList_inj, String.toList_append, String.toList_append]
  constructor
  · intro h
    obtain ⟨hbyte, hrest⟩ := List.append_inj h (by simp)
    exact ⟨byte_inj.mp (String.toList_inj.mp hbyte), String.toList_inj.mp hrest⟩
  · rintro ⟨rfl, rfl⟩
    rfl

/-- What is written behind an address does not blur it. -/
theorem address_append_inj {a b : UInt16} {s t : String} :
    address a ++ s = address b ++ t ↔ a = b ∧ s = t := by
  rw [← String.toList_inj, String.toList_append, String.toList_append]
  constructor
  · intro h
    obtain ⟨haddress, hrest⟩ := List.append_inj h (by simp)
    exact ⟨address_inj.mp (String.toList_inj.mp haddress), String.toList_inj.mp hrest⟩
  · rintro ⟨rfl, rfl⟩
    rfl

end Core65C02.Hex
