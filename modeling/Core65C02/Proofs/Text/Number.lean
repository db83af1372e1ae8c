import Core65C02.Proofs.Text.Blank
import Core65C02.Text.Number
import Mathlib.Data.List.Forall2
import Mathlib.Data.Nat.Digits.Defs

/-!
# What numbers look like

A number is written with a digit at least, the most significant one first, in either case and with
any number of zeros in front; a plus sign may stand before it. The reader looks at one digit at a
time and gives up as soon as the number reaches the bound. The main statement is that it reads
exactly the texts that stand for a number below the bound, and then gives this number.
-/

namespace Core65C02

namespace Text

/-- A character is the digit for a value in a radix, in either case. -/
def IsDigit (radix : Nat) (c : Char) (d : Nat) : Prop := d < radix ∧ c.toLower = d.digitChar

/-- A text consists of digits in a radix, and they stand for a number. -/
def Numeral (radix : Nat) (cs : List Char) (n : Nat) : Prop :=
  cs ≠ [] ∧ ∃ ds, List.Forall₂ (IsDigit radix) cs ds ∧ Nat.ofDigits radix ds.reverse = n

/-- A text consists of digits for a number, and of a plus sign in front of them if there is one. -/
def StandsFor (radix : Nat) (cs : List Char) (n : Nat) : Prop :=
  ∃ digits, (cs = digits ∨ cs = '+' :: digits) ∧ Numeral radix digits n

variable {radix bound n : Nat} {c : Char} {cs ds : List Char}

section Digits

/-- The characters of ASCII that have the value of a digit are that digit in either case. -/
theorem digitValue?_ofNat : ∀ m < 128, ∀ d < 16,
    Hex.digitValue? (.ofNat m) = some d ↔ (Char.ofNat m).toLower = d.digitChar := by
  decide +kernel

/-- No digit is a blank. -/
theorem isBlank_ofNat : ∀ m < 128, ∀ d < 16,
    (Char.ofNat m).toLower = d.digitChar → isBlank (.ofNat m) = false := by
  decide +kernel

/-- Only ASCII characters are digits. -/
theorem toNat_lt_of_toLower {d : Nat} (hd : d < 16) (h : c.toLower = d.digitChar) :
    c.toNat < 128 := by
  have hdigit : ∀ d < 16, d.digitChar.toNat < 128 := by decide
  by_contra hc
  rw [toLower_eq_self (by omega)] at h
  exact hc (h ▸ hdigit d hd)

/-- Characters outside of ASCII are no digits. -/
theorem digitValue?_eq_none (hc : 128 ≤ c.toNat) : Hex.digitValue? c = none := by
  have hgt {last : Char} (hlast : last.toNat < 128) : ¬ c ≤ last := fun hle =>
    absurd (hc.trans (show c.toNat ≤ last.toNat from hle)) (Nat.not_le.mpr hlast)
  unfold Hex.digitValue?
  rw [if_neg fun h => hgt (by decide) h.2, if_neg fun h => hgt (by decide) h.2,
    if_neg fun h => hgt (by decide) h.2]

/-- A character is read as a digit exactly if it is one in the radix. -/
theorem digit?_eq_some_iff {d : Nat} (hradix : radix ≤ 16) :
    digit? radix c = some d ↔ IsDigit radix c d := by
  simp only [digit?, IsDigit, Option.filter_eq_some_iff, decide_eq_true_eq, and_comm]
  refine and_congr_right fun hd => ?_
  by_cases hc : c.toNat < 128
  · simpa using digitValue?_ofNat c.toNat hc d (by omega)
  · rw [digitValue?_eq_none (by omega)]
    simpa using fun h => hc (toNat_lt_of_toLower (by omega) h)

/-- A digit in a radix of at most sixteen is no blank. -/
theorem isBlank_of_isDigit {d : Nat} (hradix : radix ≤ 16) (h : IsDigit radix c d) :
    isBlank c = false := by
  have hd : d < 16 := h.1.trans_le hradix
  simpa using isBlank_ofNat c.toNat (toNat_lt_of_toLower hd h.2) d hd (by simpa using h.2)

end Digits

section Reading

/-- Digits are added up from the left. -/
theorem ofDigits_reverse (radix : Nat) (ds : List Nat) :
    Nat.ofDigits radix ds.reverse = ds.foldl (fun n d => n * radix + d) 0 := by
  rw [Nat.ofDigits_eq_foldr, List.foldr_reverse]
  simp [Nat.add_comm, Nat.mul_comm]

/-- More digits do not make a number smaller. -/
theorem le_foldl (hradix : 0 < radix) (n : Nat) (ds : List Nat) :
    n ≤ ds.foldl (fun n d => n * radix + d) n := by
  induction ds generalizing n with
  | nil => exact le_rfl
  | cons d ds ih =>
    calc n ≤ n * radix := Nat.le_mul_of_pos_right n hradix
      _ ≤ n * radix + d := Nat.le_add_right ..
      _ ≤ _ := ih _

/-- The reader gives up only when the whole number is out of bounds: what follows the digits it has
seen cannot bring the number back below the bound. -/
theorem digitsAfter_eq_ok_iff (hpos : 0 < radix) (hradix : radix ≤ 16) {start : Nat}
    (hstart : start < bound) : digitsAfter radix bound start cs = .ok n ↔
      (∃ ds, List.Forall₂ (IsDigit radix) cs ds ∧
        ds.foldl (fun n d => n * radix + d) start = n) ∧ n < bound := by
  -- the number so far grows with every digit, so it is general in the induction
  induction cs generalizing start with
  | nil =>
    simp only [digitsAfter, List.forall₂_nil_left_iff, exists_eq_left, List.foldl_nil,
      Except.ok.injEq]
    exact ⟨fun h => ⟨h, h ▸ hstart⟩, And.left⟩
  | cons c cs ih =>
    simp only [digitsAfter, List.forall₂_cons_left_iff]
    cases hdigit : digit? radix c with
    | none =>
      refine iff_of_false nofun ?_
      rintro ⟨⟨_, ⟨d, _, hd, _⟩, _⟩, _⟩
      rw [(digit?_eq_some_iff hradix).mpr hd] at hdigit
      cases hdigit
    | some d =>
      have hd := (digit?_eq_some_iff hradix).mp hdigit
      have hunique {e : Nat} (he : IsDigit radix c e) : e = d := Option.some_inj.mp
        (((digit?_eq_some_iff hradix).mpr he).symm.trans hdigit)
      by_cases hnext : start * radix + d < bound
      · simp only [hnext, if_true, ih hnext]
        refine and_congr_left fun _ => ⟨?_, ?_⟩
        · rintro ⟨ds, hds, rfl⟩
          exact ⟨_, ⟨d, ds, hd, hds, rfl⟩, rfl⟩
        · rintro ⟨_, ⟨e, ds, he, hds, rfl⟩, rfl⟩
          exact ⟨ds, hds, by rw [List.foldl_cons, hunique he]⟩
      · simp only [hnext, if_false]
        refine iff_of_false nofun ?_
        rintro ⟨⟨_, ⟨e, ds, he, _, rfl⟩, rfl⟩, hn⟩
        rw [List.foldl_cons, hunique he] at hn
        exact hnext ((le_foldl hpos _ ds).trans_lt hn)

/-- Digits are read as a number exactly if they stand for it and it is below the bound. -/
theorem digitsAfter_zero_eq_ok_iff (hpos : 0 < radix) (hradix : radix ≤ 16) (hbound : 0 < bound)
    (hne : cs ≠ []) : digitsAfter radix bound 0 cs = .ok n ↔ Numeral radix cs n ∧ n < bound := by
  simp only [digitsAfter_eq_ok_iff hpos hradix hbound, Numeral, ofDigits_reverse, hne, ne_eq,
    not_false_eq_true, true_and]

/-- A plus sign is no digit. -/
theorem not_numeral_plus : ¬ Numeral radix ('+' :: cs) n := by
  rintro ⟨-, _, h, -⟩
  cases h with
  | cons hd _ => exact Nat.digitChar_ne '+' (by decide) hd.2.symm

/-- The reader reads exactly the texts that stand for a number below the bound. -/
theorem number_eq_ok_iff (hpos : 0 < radix) (hradix : radix ≤ 16) (hbound : 0 < bound) :
    number radix bound cs = .ok n ↔ StandsFor radix cs n ∧ n < bound := by
  unfold number
  split
  case h_1 =>
    refine iff_of_false nofun ?_
    rintro ⟨⟨_, rfl | hplus, hne, -⟩, -⟩
    · exact hne rfl
    · cases hplus
  case h_2 =>
    refine iff_of_false nofun ?_
    rintro ⟨⟨_, rfl | hplus, hdigits⟩, -⟩
    · exact not_numeral_plus hdigits
    · cases hplus
      exact hdigits.1 rfl
  case h_3 digits hne =>
    -- a plus sign was taken away, and what follows cannot begin with a second one
    rw [digitsAfter_zero_eq_ok_iff hpos hradix hbound hne]
    refine and_congr_left fun _ => ⟨fun h => ⟨digits, .inr rfl, h⟩, ?_⟩
    rintro ⟨_, rfl | hplus, hdigits⟩
    · exact absurd hdigits not_numeral_plus
    · cases hplus
      exact hdigits
  case h_4 hne _ hplus =>
    rw [digitsAfter_zero_eq_ok_iff hpos hradix hbound hne]
    refine and_congr_left fun _ => ⟨fun h => ⟨_, .inl rfl, h⟩, ?_⟩
    rintro ⟨_, rfl | rfl, hdigits⟩
    · exact hdigits
    · exact absurd rfl (hplus _)

end Reading

/-- What holds of the plus sign and of every digit holds of every character of a number. -/
theorem forall_mem_standsFor {p : Char → Prop} (hplus : p '+')
    (hdigit : ∀ c d, IsDigit radix c d → p c) (h : StandsFor radix cs n) : ∀ c ∈ cs, p c := by
  obtain ⟨digits, hcs, -, ds, hds, -⟩ := h
  have hdigits : ∀ c ∈ digits, p c :=
    ((List.forall₂_and_left _ _).mp (hds.imp fun c d hd => ⟨hdigit c d hd, hd⟩)).1
  obtain rfl | rfl := hcs
  · exact hdigits
  · exact List.forall_mem_cons.mpr ⟨hplus, hdigits⟩

/-- There are no blanks within a number. -/
theorem isBlank_of_mem_standsFor (hradix : radix ≤ 16) (h : StandsFor radix cs n) :
    ∀ c ∈ cs, isBlank c = false :=
  forall_mem_standsFor (by decide) (fun _ _ hd => isBlank_of_isDigit hradix hd) h

section Writing

/-- One digit stands for its value. -/
theorem numeral_singleton {d : Nat} (hd : IsDigit radix c d) : Numeral radix [c] d :=
  ⟨List.cons_ne_nil _ _, [d], .cons hd .nil, Nat.ofDigits_singleton⟩

/-- One more digit. -/
theorem Numeral.concat {d : Nat} (h : Numeral radix cs n) (hd : IsDigit radix c d) :
    Numeral radix (cs ++ [c]) (n * radix + d) := by
  obtain ⟨-, ds, hds, rfl⟩ := h
  refine ⟨by simp, ds ++ [d], List.rel_append hds (.cons hd .nil), ?_⟩
  rw [List.reverse_append, List.reverse_singleton, List.singleton_append, Nat.ofDigits_cons]
  simp [Nat.add_comm, Nat.mul_comm]

/-- The case of the digits does not matter. -/
theorem Numeral.congr_case {cs' : List Char} (h : Numeral radix cs n)
    (hcase : cs'.map Char.toLower = cs.map Char.toLower) : Numeral radix cs' n := by
  obtain ⟨hne, ds, hds, hn⟩ := h
  refine ⟨?_, ds, ?_, hn⟩
  · rintro rfl
    exact hne (List.map_eq_nil_iff.mp hcase.symm)
  · let lower (l : Char) (d : Nat) : Prop := d < radix ∧ l = d.digitChar
    have hlower (cs : List Char) : List.Forall₂ (IsDigit radix) cs ds ↔
        List.Forall₂ lower (cs.map Char.toLower) ds :=
      (List.forall₂_map_left_iff (R := lower)).symm
    rwa [hlower, hcase, ← hlower]

/-- Digits are in lower case. -/
theorem toLower_digitChar : ∀ d < 16, d.digitChar.toLower = d.digitChar := by decide

/-- Digits stand for the same number in lower case. -/
theorem Numeral.map_toLower (hradix : radix ≤ 16) (h : Numeral radix cs n) :
    Numeral radix (cs.map Char.toLower) n := by
  obtain ⟨hne, ds, hds, hn⟩ := h
  have hlower {c : Char} {d : Nat} (hd : IsDigit radix c d) : IsDigit radix c.toLower d :=
    ⟨hd.1, by rw [hd.2, toLower_digitChar d (hd.1.trans_le hradix)]⟩
  exact ⟨by simpa using hne, ds, List.forall₂_map_left_iff.mpr (hds.imp fun _ _ => hlower), hn⟩

/-- A text that stands for a number does so in lower case too. -/
theorem StandsFor.map_toLower (hradix : radix ≤ 16) (h : StandsFor radix cs n) :
    StandsFor radix (cs.map Char.toLower) n := by
  obtain ⟨digits, hcs, hdigits⟩ := h
  refine ⟨digits.map Char.toLower, ?_, hdigits.map_toLower hradix⟩
  obtain rfl | rfl := hcs
  · exact .inl rfl
  · exact .inr rfl

/-- A number as it is printed. -/
theorem numeral_toDigits (n : Nat) : Numeral 10 (Nat.toDigits 10 n) n := by
  induction n using Nat.strongRecOn with
  | ind n ih =>
    by_cases hn : n < 10
    · rw [Nat.toDigits_of_lt_base hn]
      exact numeral_singleton ⟨hn, toLower_digitChar n (by omega)⟩
    · have hmod : n % 10 < 10 := Nat.mod_lt _ (by decide)
      have h := (ih (n / 10) (by omega)).concat ⟨hmod, toLower_digitChar _ (by omega)⟩
      rw [Nat.div_add_mod'] at h
      rwa [Nat.toDigits_of_base_le (by decide) (by omega)]

/-- A digit that is written in upper case is the digit for its value. -/
theorem isDigit_upperDigit (n : Nat) : IsDigit 16 (Hex.upperDigit (n % 16)) (n % 16) := by
  have hlower : ∀ d < 16, (Hex.upperDigit d).toLower = d.digitChar := by decide
  have hmod : n % 16 < 16 := Nat.mod_lt n (by decide)
  exact ⟨hmod, hlower _ hmod⟩

/-- A number with a fixed number of hexadecimal digits, if these are enough. -/
theorem numeral_fixed {width : Nat} (hn : n < 16 ^ (width + 1)) :
    Numeral 16 (Hex.fixed (width + 1) n) n := by
  induction width generalizing n with
  | zero =>
    have hmod : n % 16 = n := Nat.mod_eq_of_lt (by simpa using hn)
    simpa [Hex.fixed, hmod] using numeral_singleton (isDigit_upperDigit n)
  | succ width ih =>
    have hfront : n / 16 < 16 ^ (width + 1) := Nat.div_lt_of_lt_mul (by rwa [← Nat.pow_succ'])
    have h := (ih hfront).concat (isDigit_upperDigit n)
    rwa [Nat.div_add_mod'] at h

end Writing

end Text

end Core65C02
