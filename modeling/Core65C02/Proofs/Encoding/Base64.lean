import Core65C02.Encoding.Base64

/-!
# The round trip of base64

Both directions gather their output in front of an accumulator. Groups are independent of each
other, so decoding what was encoded goes group by group, and only the last group can be
incomplete. In the other direction the digits of a group are those of the number that they make up,
so that no text is accepted but the one that encoding writes.
-/

namespace Core65C02.Base64

/-- The digit for a value has this value. -/
theorem digitValue?_digit (value : Nat) (hvalue : value < 64) :
    digitValue? (digit value) = some value := by
  have hall : ∀ v : Fin 64, digitValue? (digit v) = some v.val := by decide +kernel
  exact hall ⟨value, hvalue⟩

/-- Padding is no digit. -/
theorem digitValue?_padding : digitValue? padding = none := by decide

/-- What has been encoded before stays in front. -/
theorem encodeAfter_eq (out : List Char) : ∀ bytes : List UInt8,
    encodeAfter out bytes = out.reverse ++ encodeAfter [] bytes
  | [] => by simp [encodeAfter]
  | [a] => by simp [encodeAfter]
  | [a, b] => by simp [encodeAfter]
  | a :: b :: c :: rest => by
    simp only [encodeAfter]
    rw [encodeAfter_eq _ rest, encodeAfter_eq [_, _, _, _] rest]
    simp

/-- A group of one byte and its padding. -/
theorem decodeAfter?_one (out : List UInt8) (a : UInt8) :
    decodeAfter? out (encodeAfter [] [a]) = some (out.reverse ++ [a]) := by
  have ha : a.toNat < 256 := a.toNat_lt
  have hhigh := digitValue?_digit (a.toNat * 16 / 64) (by omega)
  have hlow := digitValue?_digit (a.toNat * 16 % 64) (by omega)
  have hn : a.toNat * 16 / 64 * 64 + a.toNat * 16 % 64 = a.toNat * 16 := by omega
  simp [encodeAfter, decodeAfter?, hhigh, hlow, digitValue?_padding, hn]

/-- A group of two bytes and its padding. -/
theorem decodeAfter?_two (out : List UInt8) (a b : UInt8) :
    decodeAfter? out (encodeAfter [] [a, b]) = some (out.reverse ++ [a, b]) := by
  have ha : a.toNat < 256 := a.toNat_lt
  have hb : b.toNat < 256 := b.toNat_lt
  generalize hn : (a.toNat * 256 + b.toNat) * 4 = n
  have hhigh := digitValue?_digit (n / 4096) (by omega)
  have hmiddle := digitValue?_digit (n / 64 % 64) (by omega)
  have hlow := digitValue?_digit (n % 64) (by omega)
  have hvalue : (n / 4096 * 64 + n / 64 % 64) * 64 + n % 64 = n := by omega
  have hclear : n % 4 = 0 := by omega
  have hfirst : n / 1024 = a.toNat := by omega
  have hsecond : n / 4 % 256 = b.toNat := by omega
  simp [encodeAfter, decodeAfter?, hn, hhigh, hmiddle, hlow, digitValue?_padding, hvalue, hclear,
    hfirst, hsecond]

/-- A group of three bytes, with more to come. -/
theorem decodeAfter?_three (out : List UInt8) (a b c : UInt8) (rest : List UInt8) :
    decodeAfter? out (encodeAfter [] (a :: b :: c :: rest)) =
      decodeAfter? (c :: b :: a :: out) (encodeAfter [] rest) := by
  have ha : a.toNat < 256 := a.toNat_lt
  have hb : b.toNat < 256 := b.toNat_lt
  have hc : c.toNat < 256 := c.toNat_lt
  rw [encodeAfter, encodeAfter_eq]
  generalize hn : (a.toNat * 256 + b.toNat) * 256 + c.toNat = n
  have hfirst := digitValue?_digit (n / 262144) (by omega)
  have hsecond := digitValue?_digit (n / 4096 % 64) (by omega)
  have hthird := digitValue?_digit (n / 64 % 64) (by omega)
  have hfourth := digitValue?_digit (n % 64) (by omega)
  have hvalue : ((n / 262144 * 64 + n / 4096 % 64) * 64 + n / 64 % 64) * 64 + n % 64 = n := by omega
  have hhigh : n / 65536 = a.toNat := by omega
  have hmiddle : n / 256 % 256 = b.toNat := by omega
  have hlow : n % 256 = c.toNat := by omega
  simp [decodeAfter?, hfirst, hsecond, hthird, hfourth, hvalue, hhigh, hmiddle, hlow]

/-- What is encoded is decoded again, three bytes at a time and then the rest. -/
theorem decodeAfter?_encodeAfter (out : List UInt8) : ∀ bytes : List UInt8,
    decodeAfter? out (encodeAfter [] bytes) = some (out.reverse ++ bytes)
  | [] => by simp [encodeAfter, decodeAfter?]
  | [a] => decodeAfter?_one out a
  | [a, b] => decodeAfter?_two out a b
  | a :: b :: c :: rest => by
    rw [decodeAfter?_three, decodeAfter?_encodeAfter (c :: b :: a :: out) rest]
    simp

/-- Decoding gives back what was encoded. -/
theorem decode?_encode (bytes : List UInt8) : decode? (encode bytes) = some bytes := by
  simp [decode?, encode, decodeAfter?_encodeAfter]

/-- A character that is a digit is the digit for its value, which has six bits. -/
theorem digit_of_digitValue? {c : Char} {value : Nat} (h : digitValue? c = some value) :
    value < 64 ∧ digit value = c := by
  have hall : ∀ n : Fin 128, ∀ value ∈ digitValue? (Char.ofNat n),
      value < 64 ∧ digit value = Char.ofNat n := by decide +kernel
  have hc : c.toNat < 128 := by
    have hbelow {d : Char} (hle : c ≤ d) (hd : d.toNat < 128) : c.toNat < 128 :=
      Nat.lt_of_le_of_lt (UInt32.le_iff_toNat_le.mp hle) hd
    unfold digitValue? at h
    split at h
    · next hupper => exact hbelow hupper.2 (by decide)
    · split at h
      · next hlower => exact hbelow hlower.2 (by decide)
      · split at h
        · next hdecimal => exact hbelow hdecimal.2 (by decide)
        · split at h
          · next hplus => exact hplus ▸ by decide
          · split at h
            · next hslash => exact hslash ▸ by decide
            · cases h
  have hvalue := hall ⟨c.toNat, hc⟩ value
  rw [Char.ofNat_toNat] at hvalue
  exact hvalue h

/-- The digits of a group of three bytes. -/
theorem encodeAfter_three {p q r s n : Nat} (hp : p < 64) (hq : q < 64) (hr : r < 64) (hs : s < 64)
    (hn : ((p * 64 + q) * 64 + r) * 64 + s = n) (rest : List UInt8) :
    encodeAfter [] (.ofNat (n / 65536) :: .ofNat (n / 256 % 256) :: .ofNat (n % 256) :: rest) =
      digit p :: digit q :: digit r :: digit s :: encodeAfter [] rest := by
  have hhigh : (UInt8.ofNat (n / 65536)).toNat = n / 65536 := by
    rw [UInt8.toNat_ofNat']
    omega
  have hmiddle : (UInt8.ofNat (n / 256 % 256)).toNat = n / 256 % 256 := by
    rw [UInt8.toNat_ofNat']
    omega
  have hlow : (UInt8.ofNat (n % 256)).toNat = n % 256 := by
    rw [UInt8.toNat_ofNat']
    omega
  have hvalue : (n / 65536 * 256 + n / 256 % 256) * 256 + n % 256 = n := by omega
  have hdigits : n / 262144 = p ∧ n / 4096 % 64 = q ∧ n / 64 % 64 = r ∧ n % 64 = s := by omega
  rw [encodeAfter, encodeAfter_eq, hhigh, hmiddle, hlow, hvalue]
  simp [hdigits]

/-- The digits of a group of two bytes, if the bits that are not used are clear. -/
theorem encodeAfter_two {p q r n : Nat} (hp : p < 64) (hq : q < 64) (hr : r < 64)
    (hn : (p * 64 + q) * 64 + r = n) (hclear : n % 4 = 0) :
    encodeAfter [] [.ofNat (n / 1024), .ofNat (n / 4 % 256)] =
      [digit p, digit q, digit r, padding] := by
  have hhigh : (UInt8.ofNat (n / 1024)).toNat = n / 1024 := by
    rw [UInt8.toNat_ofNat']
    omega
  have hlow : (UInt8.ofNat (n / 4 % 256)).toNat = n / 4 % 256 := by
    rw [UInt8.toNat_ofNat']
    omega
  have hvalue : (n / 1024 * 256 + n / 4 % 256) * 4 = n := by omega
  have hdigits : n / 4096 = p ∧ n / 64 % 64 = q ∧ n % 64 = r := by omega
  rw [encodeAfter, hhigh, hlow, hvalue]
  simp [hdigits]

/-- The digits of a group of one byte, if the bits that are not used are clear. -/
theorem encodeAfter_one {p q n : Nat} (hp : p < 64) (hq : q < 64) (hn : p * 64 + q = n)
    (hclear : n % 16 = 0) :
    encodeAfter [] [.ofNat (n / 16)] = [digit p, digit q, padding, padding] := by
  have hhigh : (UInt8.ofNat (n / 16)).toNat = n / 16 := by
    rw [UInt8.toNat_ofNat']
    omega
  have hvalue : n / 16 * 16 = n := by omega
  have hdigits : n / 64 = p ∧ n % 64 = q := by omega
  rw [encodeAfter, hhigh, hvalue]
  simp [hdigits]

/-- What is decoded is encoded in the text that was decoded. -/
theorem encodeAfter_of_decodeAfter? (text : List Char) {out bytes : List UInt8}
    (h : decodeAfter? out text = some bytes) :
    ∃ rest, bytes = out.reverse ++ rest ∧ encodeAfter [] rest = text := by
  fun_induction decodeAfter? out text with
  | case1 out =>
    cases h
    exact ⟨[], (List.append_nil _).symm, rfl⟩
  | case2 out p q r s rest a b c d hs hr hq hp n ih =>
    obtain ⟨others, rfl, rfl⟩ := ih h
    obtain ⟨ha, rfl⟩ := digit_of_digitValue? hp
    obtain ⟨hb, rfl⟩ := digit_of_digitValue? hq
    obtain ⟨hc, rfl⟩ := digit_of_digitValue? hr
    obtain ⟨hd, rfl⟩ := digit_of_digitValue? hs
    exact ⟨_, by simp, encodeAfter_three (n := n) ha hb hc hd rfl others⟩
  | case3 out p q r s rest a b c hs hr hq hp n hend =>
    cases h
    obtain ⟨rfl, rfl, hclear⟩ := hend
    obtain ⟨ha, rfl⟩ := digit_of_digitValue? hp
    obtain ⟨hb, rfl⟩ := digit_of_digitValue? hq
    obtain ⟨hc, rfl⟩ := digit_of_digitValue? hr
    exact ⟨_, by simp, encodeAfter_two (n := n) ha hb hc rfl hclear⟩
  | case5 out p q r s rest a b hs hr hq hp n hend =>
    cases h
    obtain ⟨rfl, rfl, rfl, hclear⟩ := hend
    obtain ⟨ha, rfl⟩ := digit_of_digitValue? hp
    obtain ⟨hb, rfl⟩ := digit_of_digitValue? hq
    exact ⟨_, by simp, encodeAfter_one (n := n) ha hb rfl hclear⟩
  | case4 | case6 | case7 | case8 => cases h

/-- A text can be decoded if it is the one that encoding writes. -/
theorem decode?_eq_some_iff {text : String} {bytes : List UInt8} :
    decode? text = some bytes ↔ encode bytes = text := by
  constructor
  · intro h
    obtain ⟨rest, hbytes, hrest⟩ := encodeAfter_of_decodeAfter? text.toList h
    rw [List.reverse_nil, List.nil_append] at hbytes
    rw [encode, hbytes, hrest, String.ofList_toList]
  · rintro rfl
    exact decode?_encode bytes

end Core65C02.Base64
