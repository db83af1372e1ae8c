import Core65C02.Forms.Settings
import Core65C02.Proofs.Text.Blank
import Core65C02.Proofs.Text.Number
import Core65C02.Run.Controller

/-!
# Clock rates in texts and in settings

A clock rate is written as a name or as a number of cycles a second, in either case and with blanks
around it. Names are made of letters and numbers are not, so the two never meet, and what is
displayed for a rate is read back as this rate. Zero can be written in many ways, as a text and in
settings, but a rate that is read is never zero. A run that is given such a rate is therefore paced
if and only if the rate has a number of cycles.
-/

namespace Core65C02

open Text (Framed StandsFor)

namespace ClockRate

/-- A number of cycles a second fits in 64 bits. -/
def Fits (c : ClockRate) : Prop := ∀ hz, c = custom hz → hz < 1 <<< 64

/-- Characters in lower case write a rate, which may be zero. -/
inductive Writes : List Char → ClockRate → Prop
  /-- By a name of it. -/
  | name {cs : List Char} {c : ClockRate} (hname : named? (String.ofList cs) = some c) : Writes cs c
  /-- As a number. -/
  | number {cs : List Char} {hz : Nat} (hhz : StandsFor 10 cs hz) (hfits : hz < 1 <<< 64) :
      Writes cs (custom hz)

/-- A rate stands in a text, in either case and with blanks around it. -/
def StandsIn (c : ClockRate) (text : String) : Prop :=
  ∃ core, Framed text.toList core ∧ Writes (core.map Char.toLower) c

variable {c : ClockRate} {cs : List Char} {text : String}

section Names

/-- Names are made of letters. -/
theorem letters_of_named? {name : String} (h : named? name = some c) :
    name.toList ≠ [] ∧ ∀ l ∈ name.toList, 'a' ≤ l.toLower ∧ Text.isBlank l = false := by
  have hall : name.toList ≠ [] ∧
      name.toList.all (fun l => 'a' ≤ l.toLower && !Text.isBlank l) = true := by
    unfold named? at h
    split at h
    case h_9 => cases h
    all_goals decide
  simpa only [List.all_eq_true, Bool.and_eq_true, decide_eq_true_eq, Bool.not_eq_true'] using hall

/-- No number is a name. -/
theorem named?_of_standsFor {hz : Nat} (h : StandsFor 10 cs hz) :
    named? (String.ofList cs) = none := by
  rw [Option.eq_none_iff_forall_ne_some]
  intro c hname
  obtain ⟨hne, hletters⟩ := letters_of_named? hname
  rw [String.toList_ofList] at hne hletters
  have hdigits : ∀ l ∈ cs, ¬ 'a' ≤ l.toLower := by
    have hdigit : ∀ d < 10, ¬ 'a' ≤ d.digitChar := by decide
    exact Text.forall_mem_standsFor (by decide) (fun _ d hd => hd.2 ▸ hdigit d hd.1) h
  obtain ⟨l, hl⟩ := List.exists_mem_of_ne_nil cs hne
  exact hdigits l hl (hletters l hl).1

end Names

section Reading

/-- There are no blanks within a rate. -/
theorem isBlank_of_mem_writes (h : Writes (cs.map Char.toLower) c) :
    ∀ l ∈ cs, Text.isBlank l = false := by
  have hlower : ∀ l ∈ cs.map Char.toLower, Text.isBlank l = false := by
    obtain hname | ⟨hhz, -⟩ := h
    · have hletters := (letters_of_named? hname).2
      rw [String.toList_ofList] at hletters
      exact fun l hl => (hletters l hl).2
    · exact Text.isBlank_of_mem_standsFor (by decide) hhz
  intro l hl
  rw [← Text.isBlank_toLower]
  exact hlower _ (List.mem_map_of_mem hl)

/-- A rate stands in a text if it is what is left without the blanks at both ends, in lower case. -/
theorem standsIn_iff :
    c.StandsIn text ↔ Writes ((Text.trimChars text.toList).map Char.toLower) c :=
  (Text.trimChars_iff (P := fun core => Writes (core.map Char.toLower) c)
    fun _ => isBlank_of_mem_writes).symm

/-- Only the custom rate of zero is refused. -/
theorem validate_eq (c : ClockRate) :
    c.validate = if c = custom 0 then .error ⟨"0 Hz"⟩ else .ok () := by
  unfold validate
  split
  case h_1 => rfl
  case h_2 hc => rw [if_neg hc]

/-- A rate that stands in a text is read, and rejected if it is zero. -/
theorem parse_of_standsIn (h : c.StandsIn text) :
    parse text = if c = custom 0 then .error ⟨"0 Hz"⟩ else .ok c := by
  have hvalid : (do c.validate; return c) =
      if c = custom 0 then (.error ⟨"0 Hz"⟩ : Except InvalidClock ClockRate) else .ok c := by
    rw [validate_eq]
    split <;> rfl
  rw [← hvalid]
  unfold parse
  obtain hname | ⟨hhz, hfits⟩ := standsIn_iff.mp h
  · simp only [hname, pure_bind]
  · have hnumber := (Text.number_eq_ok_iff (by decide) (by decide) (by decide)).mpr ⟨hhz, hfits⟩
    simp only [named?_of_standsFor hhz, hnumber, pure_bind]

/-- If no rate stands in a text, the text is rejected as it is. -/
theorem parse_of_not_standsIn (h : ∀ c : ClockRate, ¬ c.StandsIn text) :
    parse text = .error ⟨text⟩ := by
  simp only [standsIn_iff] at h
  unfold parse
  dsimp only
  split
  case h_1 c hname => exact absurd (.name hname) (h c)
  case h_2 =>
    split
    case h_1 hz hnumber =>
      have hhz := (Text.number_eq_ok_iff (by decide) (by decide) (by decide)).mp hnumber
      exact absurd (.number hhz.1 hhz.2) (h (custom hz))
    case h_2 => rfl

/-- The texts of the rates other than zero are accepted, and no others. -/
theorem parse_eq_ok_iff : parse text = .ok c ↔ c.StandsIn text ∧ c ≠ custom 0 := by
  constructor
  · intro h
    by_cases hstands : ∃ d : ClockRate, d.StandsIn text
    · obtain ⟨d, hd⟩ := hstands
      rw [parse_of_standsIn hd] at h
      split at h
      case isTrue => cases h
      case isFalse hne =>
        cases h
        exact ⟨hd, hne⟩
    · rw [parse_of_not_standsIn (not_exists.mp hstands)] at h
      cases h
  · rintro ⟨hstands, hne⟩
    rw [parse_of_standsIn hstands, if_neg hne]

end Reading

section Displaying

/-- What is displayed for a rate writes this rate. -/
theorem writes_display (hc : c.Fits) : Writes (c.display.toList.map Char.toLower) c := by
  cases c with
  | custom hz =>
    have hdigits : Text.Numeral 10 ((toString hz).toList.map Char.toLower) hz := by
      rw [Nat.toString_eq_repr, Nat.toList_repr]
      exact (Text.numeral_toDigits hz).map_toLower (by decide)
    exact .number ⟨_, .inl rfl, hdigits⟩ (hc hz rfl)
  | _ => exact .name (by decide)

/-- A rate stands in a text that shows it, in either case and with blanks around it. -/
theorem standsIn_of_display {core : List Char} (hc : c.Fits) (hframed : Framed text.toList core)
    (hcase : core.map Char.toLower = c.display.toList.map Char.toLower) : c.StandsIn text :=
  ⟨core, hframed, hcase ▸ writes_display hc⟩

end Displaying

section Pacing

/-- A rate is not zero, and a run that is given it is paced if and only if it has a number of
cycles. -/
def Usable (c : ClockRate) : Prop :=
  c ≠ custom 0 ∧ (∀ hz ∈ c.hz, 0 < hz) ∧
    ∀ k : Controller, (k.withClockHz c.hz).isPaced = c.hz.isSome

/-- Only the custom rate of zero has a number of cycles that is zero. -/
theorem pos_of_mem_hz (hc : c ≠ custom 0) : ∀ hz ∈ c.hz, 0 < hz := by
  rintro hz hhz
  cases c <;> cases hhz
  case custom => exact Nat.pos_of_ne_zero fun h => hc (h ▸ rfl)
  all_goals decide

/-- A run is paced by any rate that has a number of cycles. -/
theorem isPaced_withClockHz (hc : c ≠ custom 0) (k : Controller) :
    (k.withClockHz c.hz).isPaced = c.hz.isSome := by
  have hpos := pos_of_mem_hz hc
  unfold Controller.isPaced Controller.withClockHz
  cases hhz : c.hz with
  | none => rfl
  | some hz =>
    have hne : hz ≠ 0 := (hpos hz hhz).ne'
    simp [hne]

/-- Every rate but the custom one of zero can be used. -/
theorem usable_of_ne_zero (hc : c ≠ custom 0) : c.Usable :=
  ⟨hc, pos_of_mem_hz hc, isPaced_withClockHz hc⟩

end Pacing

end ClockRate

namespace Settings

variable {text : String} {s : Settings}

/-- Settings that are of the expected form are rejected for their clock rate only. -/
theorem parse_of_ofJson? (h : (Json.parse? text).bind ofJson? = some s) :
    parse text = if s.clock = .custom 0 then .error (.invalidClock ⟨"0 Hz"⟩) else .ok s := by
  unfold parse
  by_cases hzero : s.clock = .custom 0
  · simp only [h, ClockRate.validate_eq, hzero, if_true]
  · simp only [h, ClockRate.validate_eq, hzero, if_false]

/-- Settings that are accepted do not have the rate of zero. -/
theorem clock_ne_zero_of_parse (h : parse text = .ok s) : s.clock ≠ .custom 0 := by
  cases hjson : (Json.parse? text).bind ofJson? with
  | none => simp [parse, hjson] at h
  | some t =>
    rw [parse_of_ofJson? hjson] at h
    split at h
    case isTrue => cases h
    case isFalse hne =>
      cases h
      exact hne

/-- Settings that are accepted from a file do not have the rate of zero. -/
theorem clock_ne_zero_of_ofFile {content : Option (List UInt8)} (h : ofFile content = .ok s) :
    s.clock ≠ .custom 0 := by
  unfold ofFile at h
  split at h
  case h_1 => cases h
  case h_2 => exact clock_ne_zero_of_parse h

/-- What is displayed for a rate other than zero is read as this rate, in either case and with
blanks around it. Zero is rejected however it is written, in a text, in settings and in a file of
them, so every rate that is read is usable. -/
theorem clock_roundTrip :
    (∀ c : ClockRate, c ≠ .custom 0 → c.Fits → ∀ text core, Framed text.toList core →
      core.map Char.toLower = c.display.toList.map Char.toLower →
      ClockRate.parse text = .ok c) ∧
    (∀ text c, ClockRate.parse text = .ok c → c.Usable) ∧
    (∀ text core, Framed text.toList core → StandsFor 10 core 0 →
      ClockRate.parse text = .error ⟨"0 Hz"⟩) ∧
    (∀ text s, parse text = .ok s → s.clock.Usable) ∧
    (∀ content s, ofFile content = .ok s → s.clock.Usable) ∧
    ∀ text s, (Json.parse? text).bind ofJson? = some s → s.clock = .custom 0 →
      parse text = .error (.invalidClock ⟨"0 Hz"⟩) := by
  refine ⟨?_, ?_, ?_, ?_, ?_, ?_⟩
  · intro c hne hfits text core hframed hcase
    have hstands := ClockRate.standsIn_of_display hfits hframed hcase
    exact ClockRate.parse_eq_ok_iff.mpr ⟨hstands, hne⟩
  · exact fun text c h => ClockRate.usable_of_ne_zero (ClockRate.parse_eq_ok_iff.mp h).2
  · intro text core hframed hzero
    have hwrites := ClockRate.Writes.number (hzero.map_toLower (by decide)) (by decide)
    rw [ClockRate.parse_of_standsIn ⟨core, hframed, hwrites⟩, if_pos rfl]
  · exact fun text s h => ClockRate.usable_of_ne_zero (clock_ne_zero_of_parse h)
  · exact fun content s h => ClockRate.usable_of_ne_zero (clock_ne_zero_of_ofFile h)
  · intro text s hjson hzero
    rw [parse_of_ofJson? hjson, if_pos hzero]

/-- A number, a name in mixed case, zero in three ways, and a rate in settings. -/
theorem clock_roundTrip_samples :
    ClockRate.parse "\t1790000 " = .ok (.custom 1790000) ∧ ClockRate.parse "TurBO" = .ok .turbo ∧
    ClockRate.unthrottled.Usable ∧ ClockRate.parse " +000" = .error ⟨"0 Hz"⟩ ∧
    ClockRate.small.Usable ∧ (ClockRate.custom 2000).Usable ∧
    parse "\x7b\"clock\":\x7b\"Custom\":0\x7d\x7d" = .error (.invalidClock ⟨"0 Hz"⟩) := by
  have hfits : (ClockRate.custom 1790000).Fits := fun hz h => by cases h; decide
  refine ⟨?_, ?_, ?_, ?_, ?_, ?_, ?_⟩
  · exact clock_roundTrip.1 _ (by decide) hfits _ "1790000".toList
      ⟨['\t'], [' '], by decide +kernel, by simp [Text.isBlank], by simp [Text.isBlank]⟩
      (by decide +kernel)
  · exact clock_roundTrip.1 .turbo (by decide) nofun _ "TurBO".toList (Text.framed_self _)
      (by decide +kernel)
  · exact clock_roundTrip.2.1 "off" _ (by decide +kernel)
  · exact clock_roundTrip.2.2.1 _ "+000".toList
      ⟨[' '], [], by decide +kernel, by simp [Text.isBlank], List.forall_mem_nil _⟩
      ⟨['0', '0', '0'], .inr (by decide +kernel), by decide,
        [0, 0, 0], by simp [Text.IsDigit], by decide⟩
  · exact clock_roundTrip.2.2.2.1 "\x7b\"clock\":\"Small\"\x7d" { clock := .small }
      (by decide +kernel)
  · exact clock_roundTrip.2.2.2.2.1 (some "\x7b\"clock\":\x7b\"Custom\":2000\x7d\x7d".toUTF8.toList)
      { clock := .custom 2000 } (by decide +kernel)
  · exact clock_roundTrip.2.2.2.2.2 _ { clock := .custom 0 } (by decide +kernel) rfl

end Settings

end Core65C02
