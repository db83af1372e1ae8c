import Core65C02.Text.Blank
import Mathlib.Data.List.DropRight

/-!
# Blanks around a text

What people type may have blanks around it. A text is framed by blanks here if it consists of a core
and blanks on both sides of it; trimming finds a core, and if no character of a core is a blank,
that is the one it finds.
-/

namespace Core65C02.Text

/-- A text consists of a core with blanks around it. -/
def Framed (cs core : List Char) : Prop :=
  ∃ front back, cs = front ++ core ++ back ∧ (∀ c ∈ front, isBlank c = true) ∧
    ∀ c ∈ back, isBlank c = true

variable {cs core : List Char}

/-- To trim a text is to drop the blanks at its beginning and at its end. -/
theorem trimChars_eq (cs : List Char) :
    trimChars cs = (cs.dropWhile isBlank).rdropWhile isBlank := rfl

/-- A text has itself for a core, with no blanks around it. -/
theorem framed_self (cs : List Char) : Framed cs cs := ⟨[], [], by simp⟩

/-- What is trimmed away are blanks. -/
theorem framed_trimChars (cs : List Char) : Framed cs (trimChars cs) := by
  refine ⟨cs.takeWhile isBlank, (cs.dropWhile isBlank).rtakeWhile isBlank, ?_, ?_, ?_⟩
  · rw [List.append_assoc, trimChars_eq, List.rdropWhile_append_rtakeWhile,
      List.takeWhile_append_dropWhile]
  · exact fun c hc => List.mem_takeWhile_imp hc
  · exact fun c hc => List.mem_rtakeWhile_imp hc

/-- A core without blanks is what is left. -/
theorem trimChars_of_framed (h : Framed cs core) (hcore : ∀ c ∈ core, isBlank c = false) :
    trimChars cs = core := by
  obtain ⟨front, back, rfl, hfront, hback⟩ := h
  rw [trimChars_eq, List.append_assoc, List.dropWhile_append_of_pos hfront]
  by_cases hempty : core = []
  · rw [hempty, List.nil_append, List.dropWhile_eq_nil_iff.mpr hback, List.rdropWhile_nil]
  · obtain ⟨c, rest, rfl⟩ := List.exists_cons_of_ne_nil hempty
    have hc : ¬ isBlank c = true := by simp [hcore c List.mem_cons_self]
    have hlast : (c :: rest).rdropWhile isBlank = c :: rest :=
      List.rdropWhile_eq_self_iff.mpr fun hne => by simp [hcore _ (List.getLast_mem hne)]
    have hreverse : ∀ c ∈ back.reverse, isBlank c = true := by simpa using hback
    rw [List.cons_append, List.dropWhile_cons_of_neg hc, ← List.cons_append, List.rdropWhile,
      List.reverse_append, List.dropWhile_append_of_pos hreverse]
    exact hlast

/-- Trimming gives a text of some kind if the text is of this kind but for blanks around it. -/
theorem trimChars_iff {P : List Char → Prop} (hP : ∀ core, P core → ∀ c ∈ core, isBlank c = false) :
    P (trimChars cs) ↔ ∃ core, Framed cs core ∧ P core := by
  constructor
  · exact fun h => ⟨_, framed_trimChars cs, h⟩
  · rintro ⟨core, hframed, hcore⟩
    rwa [trimChars_of_framed hframed (hP core hcore)]

/-- Only ASCII characters have another character in lower case. -/
theorem toLower_eq_self {c : Char} (hc : 128 ≤ c.toNat) : c.toLower = c := by
  unfold Char.toLower
  refine dif_neg fun hupper => ?_
  have hle : c.toNat ≤ 'Z'.toNat := hupper.2
  exact absurd (hc.trans hle) (by decide)

/-- A character is a blank if it is one in lower case. -/
theorem isBlank_toLower (c : Char) : isBlank c.toLower = isBlank c := by
  by_cases hc : c.toNat < 128
  · have hascii : ∀ n < 128, isBlank (Char.ofNat n).toLower = isBlank (.ofNat n) := by
      decide +kernel
    simpa using hascii c.toNat hc
  · rw [toLower_eq_self (by omega)]

end Core65C02.Text
