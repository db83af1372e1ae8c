import Core65C02.Proofs.Hexadecimal
import Core65C02.Proofs.Text.Blank
import Core65C02.Proofs.Text.Number
import Core65C02.Settings.Address

/-!
# What addresses look like

An address is written in hexadecimal after one of three marks, or in decimal, and there may be
blanks around it. No digit begins a mark, so the two notations never meet. The main statement is
that these are exactly the texts that are accepted, if the number fits in sixteen bits; the ways to
write a given address are among them.
-/

namespace Core65C02

open Text (Framed StandsFor)

/-- The marks in front of hexadecimal digits. -/
def hexadecimalMarks : List (List Char) := [['0', 'x'], ['0', 'X'], ['$']]

/-- Characters write an address. -/
inductive WritesAddress : List Char → Nat → Prop
  /-- In hexadecimal, after a mark. -/
  | hexadecimal {mark digits : List Char} {n : Nat} (hmark : mark ∈ hexadecimalMarks)
      (hdigits : StandsFor 16 digits n) : WritesAddress (mark ++ digits) n
  /-- In decimal. -/
  | decimal {digits : List Char} {n : Nat} (hdigits : StandsFor 10 digits n) :
      WritesAddress digits n

/-- An address stands in a text, with blanks around it. -/
def HoldsAddress (text : String) (n : Nat) : Prop :=
  ∃ core, Framed text.toList core ∧ WritesAddress core n

variable {cs : List Char} {n : Nat}

/-- No mark begins a decimal number. -/
theorem ne_of_mem_decimal (h : StandsFor 10 cs n) : ∀ c ∈ cs, c ≠ 'x' ∧ c ≠ 'X' ∧ c ≠ '$' := by
  have hdigit : ∀ d < 10, d.digitChar ≠ 'x' ∧ d.digitChar ≠ '$' := by decide
  refine Text.forall_mem_standsFor (by decide) (fun c d hd => ?_) h
  refine ⟨?_, ?_, ?_⟩
  · rintro rfl
    exact (hdigit d hd.1).1 hd.2.symm
  · rintro rfl
    exact (hdigit d hd.1).1 hd.2.symm
  · rintro rfl
    exact (hdigit d hd.1).2 hd.2.symm

/-- The marks that are looked for decide on the radix. -/
theorem writesAddress_iff :
    WritesAddress cs n ↔ StandsFor (addressDigits cs).1 (addressDigits cs).2 n := by
  constructor
  · rintro (⟨hmark, hdigits⟩ | hdigits)
    · obtain rfl | rfl | rfl : _ = ['0', 'x'] ∨ _ = ['0', 'X'] ∨ _ = ['$'] := by
        simpa [hexadecimalMarks] using hmark
      all_goals exact hdigits
    · -- with a mark in front the text would be read in hexadecimal, but no decimal text has one
      have hne := ne_of_mem_decimal hdigits
      unfold addressDigits
      split
      case h_1 => simp at hne
      case h_2 => simp at hne
      case h_3 => simp at hne
      case h_4 => exact hdigits
  · unfold addressDigits
    split
    case h_1 => exact .hexadecimal (show ['0', 'x'] ∈ hexadecimalMarks by decide)
    case h_2 => exact .hexadecimal (show ['0', 'X'] ∈ hexadecimalMarks by decide)
    case h_3 => exact .hexadecimal (show ['$'] ∈ hexadecimalMarks by decide)
    case h_4 => exact .decimal

/-- There are no blanks within an address. -/
theorem isBlank_of_mem_address (h : WritesAddress cs n) : ∀ c ∈ cs, Text.isBlank c = false := by
  obtain ⟨hmark, hdigits⟩ | hdigits := h
  · have hmarks : ∀ mark ∈ hexadecimalMarks, mark.all (fun c => !Text.isBlank c) = true := by decide
    intro c hc
    obtain hc | hc := List.mem_append.mp hc
    · simpa using List.all_eq_true.mp (hmarks _ hmark) c hc
    · exact Text.isBlank_of_mem_standsFor le_rfl hdigits c hc
  · exact Text.isBlank_of_mem_standsFor (by decide) hdigits

/-- An address stands in a text if it is what is left without the blanks at both ends. -/
theorem holdsAddress_iff {text : String} :
    HoldsAddress text n ↔ WritesAddress (Text.trimChars text.toList) n :=
  (Text.trimChars_iff (P := (WritesAddress · n)) fun _ => isBlank_of_mem_address).symm

/-- The digits that are found behind a mark, or without one, are those of the address that is
written, if it is in range. -/
theorem number_addressDigits_eq_ok_iff :
    Text.number (addressDigits cs).1 65536 (addressDigits cs).2 = .ok n ↔
      WritesAddress cs n ∧ n < 65536 := by
  have hradix : (addressDigits cs).1 = 16 ∨ (addressDigits cs).1 = 10 := by
    unfold addressDigits
    split <;> simp
  rw [Text.number_eq_ok_iff (by omega) (by omega) (by decide), writesAddress_iff]

/-- A text is accepted for an address exactly if that address stands in it. -/
theorem parseAddress_eq_ok_iff {text : String} {a : UInt16} :
    parseAddress text = .ok a ↔ HoldsAddress text a.toNat := by
  have hread {n : Nat} : Text.number (addressDigits (Text.trimChars text.toList)).1 65536
      (addressDigits (Text.trimChars text.toList)).2 = .ok n ↔ HoldsAddress text n ∧ n < 65536 := by
    rw [number_addressDigits_eq_ok_iff, holdsAddress_iff]
  unfold parseAddress
  dsimp only
  split
  case h_1 n hn =>
    have hlt := (hread.mp hn).2
    constructor
    · intro h
      obtain rfl : UInt16.ofNat n = a := Except.ok.inj h
      rw [UInt16.toNat_ofNat_of_lt' hlt]
      exact (hread.mp hn).1
    · intro h
      obtain rfl : n = a.toNat := Except.ok.inj (hn.symm.trans (hread.mpr ⟨h, a.toNat_lt⟩))
      rw [UInt16.ofNat_toNat]
  case h_2 hcause =>
    refine iff_of_false nofun fun h => ?_
    rw [hread.mpr ⟨h, a.toNat_lt⟩] at hcause
    cases hcause

/-- Four digits are enough for an address. -/
theorem numeral_address (a : UInt16) : Text.Numeral 16 (Hex.address a).toList a.toNat := by
  rw [Hex.address, String.toList_ofList]
  exact Text.numeral_fixed a.toNat_lt

/-- Exactly the addresses that can be written with sixteen bits are accepted, with blanks around
them, and then as they are meant. In particular an address is accepted however it is written: with
four hexadecimal digits in either case after any mark, and as it is printed in decimal. -/
theorem parseAddress_language :
    (∀ text a, parseAddress text = .ok a ↔ HoldsAddress text a.toNat) ∧
    (∀ text, (∃ e, parseAddress text = .error e) ↔ ¬ ∃ n < 65536, HoldsAddress text n) ∧
    (∀ (a : UInt16), ∀ mark ∈ hexadecimalMarks, ∀ digits,
      digits.map Char.toLower = (Hex.address a).toList.map Char.toLower →
      parseAddress (String.ofList (mark ++ digits)) = .ok a) ∧
    ∀ a : UInt16, parseAddress (toString a.toNat) = .ok a := by
  refine ⟨fun text a => parseAddress_eq_ok_iff, ?_, ?_, ?_⟩
  · intro text
    constructor
    · rintro ⟨e, he⟩ ⟨n, hlt, hn⟩
      rw [← UInt16.toNat_ofNat_of_lt' hlt, ← parseAddress_eq_ok_iff, he] at hn
      cases hn
    · intro hno
      cases h : parseAddress text with
      | ok a => exact absurd ⟨a.toNat, a.toNat_lt, parseAddress_eq_ok_iff.mp h⟩ hno
      | error e => exact ⟨e, rfl⟩
  · intro a mark hmark digits hcase
    rw [parseAddress_eq_ok_iff, HoldsAddress, String.toList_ofList]
    have hdigits := (numeral_address a).congr_case hcase
    exact ⟨_, Text.framed_self _, .hexadecimal hmark ⟨digits, .inl rfl, hdigits⟩⟩
  · intro a
    rw [parseAddress_eq_ok_iff, HoldsAddress, Nat.toString_eq_repr, Nat.toList_repr]
    exact ⟨_, Text.framed_self _, .decimal ⟨_, .inl rfl, Text.numeral_toDigits _⟩⟩

/-- Digits in both cases after a dollar sign. -/
theorem parseAddress_language_mixedCase :
    parseAddress (String.ofList ['$', 'b', 'E', 'e', 'F']) = .ok 0xBEEF := by
  refine parseAddress_language.2.2.1 0xBEEF ['$'] (by decide) ['b', 'E', 'e', 'F'] ?_
  rw [Hex.address, String.toList_ofList]
  decide

example : parseAddress "\t0X+00600 " = .ok 0x0600 := by decide +kernel

end Core65C02
