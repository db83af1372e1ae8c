import Core65C02.Proofs.Run.Calls
import Core65C02.Proofs.Run.Pause

/-!
# Commands from lines

A source of bytes hands out one command for each line, and it should close at the end of the bytes
only. But a line that is no UTF-8 counts as a failed read, and a pause takes a failed read for the
end: the run goes on, and single-step mode is lost. The main statement says that this is the only
way in which a source of bytes goes wrong, and what happens then.
-/

namespace Core65C02

/-- The bytes of a line are the encoding of a text. -/
def Spells (line : List UInt8) (text : String) : Prop := text.toByteArray = ⟨line.toArray⟩

/-- A line that can be read. -/
def IsText (line : List UInt8) : Prop := ∃ text, Spells line text

/-- A way to take every line for a command text: one that can be read for its text without the
blanks around it, and any other one for something that is no command. -/
structure Shows (shown : List UInt8 → String) : Prop where
  /-- Blanks around a text do not matter. -/
  spelled {line : List UInt8} {text : String} (h : Spells line text) : shown line = Text.trim text
  /-- What cannot be read is no command. -/
  unknown {line : List UInt8} (h : ¬ IsText line) : Command.parse? (shown line) = none

namespace CommandSource

/-- The lines that bytes are made of. A line goes on to the next newline byte, or to the end of the
bytes where no newline byte follows; the end alone is no line. -/
inductive LinesOf : (bytes : List UInt8) → (lines : List (List UInt8)) → Prop
  /-- There are no bytes. -/
  | empty : LinesOf [] []
  /-- The last line has no newline byte behind it. -/
  | unended {line : List UInt8} (hline : newline ∉ line) (hne : line ≠ []) : LinesOf line [line]
  /-- A newline byte ends the line. -/
  | ended {line rest : List UInt8} {lines : List (List UInt8)} (hline : newline ∉ line)
    (hrest : LinesOf rest lines) : LinesOf (line ++ newline :: rest) (line :: lines)

/-- What was read of the first line stands in front of the bytes that follow. -/
theorem linesOf_linesFrom {line : List UInt8} (hline : newline ∉ line) (bytes : List UInt8) :
    LinesOf (line.reverse ++ bytes) (linesFrom line bytes) := by
  induction bytes generalizing line with
  | nil =>
    rw [linesFrom, List.append_nil]
    by_cases hempty : line = []
    · subst hempty
      exact .empty
    · rw [if_neg (by simpa using hempty)]
      exact .unended (by simpa using hline) (by simpa using hempty)
  | cons b rest ih =>
    rw [linesFrom]
    by_cases hb : b = newline
    · subst hb
      rw [if_pos rfl]
      exact .ended (by simpa using hline) (ih List.not_mem_nil)
    · rw [if_neg hb]
      have hline' : newline ∉ b :: line := by
        rw [List.mem_cons, not_or]
        exact ⟨Ne.symm hb, hline⟩
      simpa using ih hline'

/-- Bytes are made of the lines that are read. -/
theorem linesOf_lines (bytes : List UInt8) : LinesOf bytes (lines bytes) :=
  linesOf_linesFrom List.not_mem_nil bytes

/-- Bytes other than newlines are added to the line that is being read. -/
theorem linesFrom_append {line : List UInt8} (hline : newline ∉ line) (before rest : List UInt8) :
    linesFrom before (line ++ rest) = linesFrom (line.reverse ++ before) rest := by
  induction line generalizing before with
  | nil => rfl
  | cons b line ih =>
    rw [List.mem_cons, not_or] at hline
    rw [List.cons_append, linesFrom, if_neg (Ne.symm hline.1), ih hline.2]
    simp

/-- Bytes are made of their lines in one way only. -/
theorem LinesOf.eq_lines {bytes : List UInt8} {ls : List (List UInt8)} (h : LinesOf bytes ls) :
    ls = lines bytes := by
  unfold lines
  induction h with
  | empty => rfl
  | @unended line hline hne =>
    have hrest := linesFrom_append hline [] []
    rw [List.append_nil, List.append_nil] at hrest
    rw [hrest, linesFrom, if_neg (by simpa using hne), List.reverse_reverse]
  | @ended line rest lines hline hrest ih =>
    rw [linesFrom_append hline, linesFrom, if_pos rfl, ← ih]
    simp

/-- A line that encodes a text is read as that text without the blanks around it. -/
theorem readLine_of_spells {line : List UInt8} {text : String} (h : Spells line text) :
    readLine line = some (Text.trim text) := by
  have hvalid := text.isValidUTF8
  unfold Spells at h
  unfold readLine String.fromUTF8?
  rw [← h, dif_pos hvalid]
  rfl

/-- A line that encodes no text cannot be read. -/
theorem readLine_of_not_isText {line : List UInt8} (h : ¬ IsText line) : readLine line = none := by
  unfold readLine String.fromUTF8?
  rw [dif_neg]
  · rfl
  · intro hvalid
    exact h ⟨⟨_, hvalid⟩, rfl⟩

/-- A line is read as what it should be taken for if it encodes a text. -/
theorem readLine_eq_shown_iff {shown : List UInt8 → String} (hshown : Shows shown)
    {line : List UInt8} : readLine line = some (shown line) ↔ IsText line := by
  constructor
  · intro hread
    by_contra hnot
    rw [readLine_of_not_isText hnot] at hread
    cases hread
  · rintro ⟨text, htext⟩
    rw [readLine_of_spells htext, hshown.spelled htext]

/-- The source after a number of requests for a command. -/
def after : CommandSource → Nat → CommandSource
  | source, 0 => source
  | source, n + 1 => source.next.2.after n

/-- The answer to a request for a command that comes after `n` other ones. -/
def answer (source : CommandSource) (n : Nat) : Option String := (source.after n).next.1

/-- Requests can be made in two parts. -/
theorem after_add (source : CommandSource) (m n : Nat) :
    source.after (m + n) = (source.after m).after n := by
  induction m generalizing source with
  | zero => rw [Nat.zero_add, after]
  | succ m ih => rw [Nat.succ_add, after, after, ih]

/-- A request takes one answer away. -/
theorem pending_after (source : CommandSource) (n : Nat) :
    (source.after n).pending = source.pending.drop n := by
  induction n generalizing source with
  | zero => rfl
  | succ n ih =>
    have hnext : source.next.2.pending = source.pending.drop 1 := by
      unfold next
      rcases hpending : source.pending with _ | ⟨_ | _, _⟩ <;> simp [hpending]
    rw [after, ih, hnext, List.drop_drop, Nat.add_comm]

/-- The requests for texts that can be read are counted. -/
theorem after_append (texts : List String) (later : List (Option String)) (served : Nat) :
    (⟨texts.map some ++ later, served⟩ : CommandSource).after texts.length =
      ⟨later, served + texts.length⟩ := by
  induction texts generalizing served with
  | nil => rfl
  | cons text texts ih =>
    rw [List.length_cons, after]
    simp only [next, List.map_cons, List.cons_append]
    rw [ih, Nat.add_assoc, Nat.add_comm 1]

/-- The answers are the entries that are pending, and none after the last. -/
theorem answer_eq (source : CommandSource) (n : Nat) : source.answer n = source.pending[n]?.join := by
  rw [answer, next, pending_after]
  have hhead : source.pending[n]? = (source.pending.drop n).head? := by
    rw [List.head?_drop]
  rw [hhead]
  rcases source.pending.drop n with _ | ⟨_ | _, _⟩ <;> rfl

/-- A source of bytes answers with the texts of the lines in order exactly if it can read them
all. -/
theorem answer_ofBytes_iff (bytes : List UInt8) {shown : List UInt8 → String}
    (hshown : Shows shown) :
    (∀ n, (ofBytes bytes).answer n = (lines bytes)[n]?.map shown) ↔
      ∀ line ∈ lines bytes, IsText line := by
  have hanswer (n : Nat) : (ofBytes bytes).answer n = (lines bytes)[n]?.bind readLine := by
    rw [answer_eq, ofBytes, List.getElem?_map]
    cases (lines bytes)[n]? <;> rfl
  constructor
  · intro hall line hline
    obtain ⟨n, hn⟩ := List.getElem?_of_mem hline
    have h := hall n
    rw [hanswer, hn] at h
    exact (readLine_eq_shown_iff hshown).mp h
  · intro hall n
    rw [hanswer]
    cases hn : (lines bytes)[n]? with
    | none => rfl
    | some line => exact (readLine_eq_shown_iff hshown).mpr (hall line (List.mem_of_getElem? hn))

/-- One source is what is left of another one after some requests. -/
def LeadsTo (source later : CommandSource) : Prop := ∃ n, later = source.after n

/-- A source is what is left of itself after no request. -/
theorem LeadsTo.refl (source : CommandSource) : source.LeadsTo source := ⟨0, rfl⟩

/-- What is left of what is left is left. -/
theorem LeadsTo.trans {source later latest : CommandSource} (h : source.LeadsTo later)
    (h' : later.LeadsTo latest) : source.LeadsTo latest := by
  obtain ⟨m, rfl⟩ := h
  obtain ⟨n, rfl⟩ := h'
  exact ⟨m + n, (after_add source m n).symm⟩

/-- A pause takes no more from a source than the answers to its requests. -/
theorem leadsTo_attend (summary : String) (source : CommandSource) :
    source.LeadsTo (attend summary source.pending source.served).source := by
  obtain ⟨pending, served⟩ := source
  induction pending generalizing served with
  | nil => exact ⟨0, rfl⟩
  | cons entry rest ih =>
    cases entry with
    | none => exact ⟨1, rfl⟩
    | some line =>
      obtain ⟨n, hn⟩ := ih (served + 1)
      rw [attend]
      cases Command.parse? line with
      | none => exact ⟨n + 1, hn⟩
      | some command =>
        cases command with
        | resume | step => exact ⟨1, rfl⟩
        | registers => exact ⟨n + 1, hn⟩

/-- Lines that can all be read are answers. -/
theorem map_readLine {shown : List UInt8 → String} (hshown : Shows shown) {lines : List (List UInt8)}
    (htext : ∀ line ∈ lines, IsText line) : lines.map readLine = (lines.map shown).map some := by
  rw [List.map_map, List.map_inj_left]
  intro line hline
  exact (readLine_eq_shown_iff hshown).mpr (htext line hline)

end CommandSource

/-- If not all lines can be read, there is a first one that cannot. -/
theorem exists_first_not_isText {lines : List (List UInt8)} (h : ¬ ∀ line ∈ lines, IsText line) :
    ∃ before bad after, lines = before ++ bad :: after ∧ (∀ line ∈ before, IsText line) ∧
      ¬ IsText bad := by
  induction lines with
  | nil => simp at h
  | cons line lines ih =>
    by_cases hline : IsText line
    · rw [List.forall_mem_cons, and_iff_right hline] at h
      obtain ⟨before, bad, after, rfl, hbefore, hbad⟩ := ih h
      exact ⟨line :: before, bad, after, rfl, List.forall_mem_cons.mpr ⟨hline, hbefore⟩, hbad⟩
    · exact ⟨[], line, lines, rfl, by simp, hline⟩

/-- A pause takes from the beginning of the lines. -/
theorem map_shown_take {shown : List UInt8 → String} {lines : List (List UInt8)}
    {taken rest : List String} {singleStep : Bool}
    (htakes : PauseTakes (lines.map shown) taken rest singleStep) :
    (lines.take taken.length).map shown = taken := by
  rw [List.map_take, ← htakes.append_eq, List.take_left]

section Attend

open CommandSource

variable {shown : List UInt8 → String} (hshown : Shows shown) (summary : String) (served : Nat)
include hshown

/-- What cannot be read should be answered with a warning. -/
theorem Shows.reply?_ne_none {line : List UInt8} (h : ¬ IsText line) :
    reply? summary (shown line) ≠ none := by
  have hunknown := hshown.unknown h
  have hresumes : ¬ Resumes (shown line) := by
    intro hresumes
    rw [Command.parse?_of_resumes hresumes] at hunknown
    split at hunknown <;> cases hunknown
  have hstep : Text.trim (shown line) ≠ "step" := fun h => hresumes (.inr (.inr h))
  unfold reply?
  rw [if_neg hstep, if_neg hresumes]
  split <;> simp

/-- A pause that can read the lines which it takes goes as it should. -/
theorem attend_of_isText {lines : List (List UInt8)} {taken rest : List String} {singleStep : Bool}
    (htakes : PauseTakes (lines.map shown) taken rest singleStep)
    (htext : ∀ line ∈ lines.take taken.length, IsText line) :
    attend summary (lines.map readLine) served =
      ⟨taken.filterMap (reply? summary),
        (⟨lines.map readLine, served⟩ : CommandSource).after taken.length, singleStep⟩ := by
  have htaken := map_shown_take htakes
  have hsplit : lines.map readLine =
      taken.map some ++ (lines.drop taken.length).map readLine := by
    rw [← htaken, ← map_readLine hshown htext, htaken, ← List.map_append, List.take_append_drop]
  have hlater : ((lines.drop taken.length).map readLine).length = rest.length := by
    have hlength := congrArg List.length htakes.append_eq
    rw [List.length_append, List.length_map] at hlength
    rw [List.length_map, List.length_drop]
    omega
  rw [hsplit, attend_of_takes_append htakes summary hlater, after_append]

/-- A pause ends with the first line that it cannot read, and single-step mode is lost. -/
theorem attend_of_not_isText {lines before after : List (List UInt8)} {bad : List UInt8}
    {taken rest : List String} {singleStep : Bool}
    (htakes : PauseTakes (lines.map shown) taken rest singleStep)
    (hread : lines.take taken.length = before ++ bad :: after)
    (hbefore : ∀ line ∈ before, IsText line) (hbad : ¬ IsText bad) :
    attend summary (lines.map readLine) served =
      ⟨(before.map shown).filterMap (reply? summary),
        (⟨lines.map readLine, served⟩ : CommandSource).after (before.length + 1), false⟩ := by
  have hresumes : ∀ line ∈ before.map shown, ¬ Resumes line := by
    intro line hline
    apply htakes.not_resumes
    rw [← map_shown_take htakes, hread, List.map_append, List.map_cons, List.dropLast_append_cons]
    exact List.mem_append_left _ hline
  have hlines : lines.map readLine = (before.map shown).map some ++
      none :: (after ++ lines.drop taken.length).map readLine := by
    rw [← map_readLine hshown hbefore, ← readLine_of_not_isText hbad, ← List.map_cons,
      ← List.map_append, ← List.cons_append, ← List.append_assoc, ← hread, List.take_append_drop]
  have hlength : before.length = (before.map shown).length := (List.length_map shown).symm
  rw [hlines, attend_append summary hresumes, after_add, hlength, after_append]
  simp [attend, CommandSource.after, CommandSource.next]

/-- A pause goes as it should exactly if it can read the lines which it takes. -/
theorem attend_lines_iff {lines : List (List UInt8)} {taken rest : List String} {singleStep : Bool}
    (htakes : PauseTakes (lines.map shown) taken rest singleStep) :
    attend summary (lines.map readLine) served =
        ⟨taken.filterMap (reply? summary),
          (⟨lines.map readLine, served⟩ : CommandSource).after taken.length, singleStep⟩ ↔
      ∀ line ∈ lines.take taken.length, IsText line := by
  refine ⟨fun hattend => ?_, attend_of_isText hshown summary served htakes⟩
  by_contra hnot
  obtain ⟨before, bad, after, hread, hbefore, hbad⟩ := exists_first_not_isText hnot
  rw [attend_of_not_isText hshown summary served htakes hread hbefore hbad] at hattend
  -- the answer to the line that cannot be read is missing
  have hmessages := congrArg Attended.messages hattend
  obtain ⟨answer, hanswer⟩ := Option.ne_none_iff_exists'.mp (hshown.reply?_ne_none summary hbad)
  rw [← map_shown_take htakes, hread, List.map_append, List.map_cons, List.filterMap_append,
    List.filterMap_cons_some hanswer] at hmessages
  simp at hmessages

end Attend

namespace Controller

variable {k : Controller}

/-- What a pause of a controller leads to. -/
def attended (k : Controller) : Attended :=
  attend k.cpu.registerSummary k.source.pending k.source.served

/-- A pause leaves the run resumed, with what it leads to, and says that it begins before it answers
anything. -/
theorem pause_eq (k : Controller) :
    k.pause = { k with
      source := k.attended.source, singleStep := k.attended.singleStep, state := .running
      paceOrigin := none
      log := (k.log.add (pauseNotice k.cpu)).addAll k.attended.messages } :=
  rfl

/-- What follows a step takes no more from the source than the answers to its requests. -/
theorem leadsTo_settle (k : Controller) (r : StepResult) :
    k.source.LeadsTo (k.settle r).source := by
  have hpauseFor (reason : PauseReason) : k.source.LeadsTo (k.pauseFor reason).source :=
    CommandSource.leadsTo_attend k.cpu.registerSummary k.source
  have hfinish (j : Controller) : j.finish.source = j.source := rfl
  cases r with
  | finished =>
    rw [settle, hfinish]
    split
    · exact hpauseFor .singleStep
    · exact .refl k.source
  | pause => exact hpauseFor .breakpoint
  | proceed =>
    rw [settle]
    split
    · exact hpauseFor .singleStep
    · exact .refl k.source

/-- A turn takes no more from the source than the answers to its requests. -/
theorem leadsTo_turn (k : Controller) : k.source.LeadsTo k.turn.source := by
  cases hresult : k.cpu.step.result with
  | ok r =>
    have h := k.advanced.leadsTo_settle r
    rw [turn_of_ok hresult, source_pace]
    rwa [show k.advanced.source = k.source from k.source_attempted] at h
  | error fault =>
    rw [turn_of_error hresult, source_attempted]
    exact .refl k.source

/-- A run takes no more from its source than the answers to its requests. -/
theorem Runs.leadsTo {limit : Nat} {course : List Controller}
    {out : Controller × Except Fault RunOutcome} (h : Runs limit k course out) :
    k.source.LeadsTo out.1.source ∧ ∀ j ∈ course, k.source.LeadsTo j.source := by
  induction h with
  | finished | atLimit => exact ⟨.refl _, by simp⟩
  | @failed limit k =>
    refine ⟨k.leadsTo_turn, ?_⟩
    intro j hj
    obtain rfl := List.mem_singleton.mp hj
    exact .refl _
  | @turn limit k hrunning r hresult later out hlater ih =>
    obtain ⟨hout, hcourse⟩ := ih
    refine ⟨k.leadsTo_turn.trans hout, ?_⟩
    intro j hj
    rcases List.mem_cons.mp hj with rfl | hj
    · exact .refl _
    · exact k.leadsTo_turn.trans (hcourse j hj)

/-- Calls take no more from the source than the answers to their requests. -/
theorem leadsTo_history (hstate : k.state ≠ .paused) (calls : List Call) :
    ∀ j ∈ k.history calls, k.source.LeadsTo j.source := by
  induction calls generalizing k with
  | nil => simp [history]
  | cons call calls ih =>
    have hcall : k.source.LeadsTo (k.perform call).source ∧
        ∀ j ∈ k.courseOf call, k.source.LeadsTo j.source := by
      cases hlimit : call.limit? with
      | none =>
        rw [(k.perform_of_no_limit hlimit).2.2]
        refine ⟨?_, by simp⟩
        cases call with
        | runUntilFinish | runFor => cases hlimit
        | setSingleStep | edit => exact .refl _
      | some limit =>
        obtain ⟨hperform, hcourse⟩ := k.perform_of_limit hlimit
        rw [hperform, hcourse]
        exact (runs_runFor hstate limit).leadsTo
    intro j hj
    rcases List.mem_append.mp hj with hj | hj
    · exact hcall.2 j hj
    · exact hcall.1.trans (ih (state_and_steps_perform hstate call).1 j hj)

/-- A source of bytes closes where it should exactly if it can read all lines. Then it answers with
one text for each line, in order and without the blanks around it, and closes at the end of the
bytes. Whatever calls are made of a new controller, its runs see that source after some requests
only. A pause changes the source, single-step mode and the messages as what it leads to says, and
this is as it should be exactly if the pause can read the lines which it takes: a line that is no
command is answered with a warning, and only a line that resumes the run or the end of the bytes
ends the pause. Otherwise the first line that cannot be read ends the pause, single-step mode is
off after it, and the lines behind it are left for later. -/
theorem ofBytes_serves_iff (bytes : List UInt8) (lines : List (List UInt8))
    (hlines : CommandSource.LinesOf bytes lines) (shown : List UInt8 → String)
    (hshown : Shows shown) :
    let source := CommandSource.ofBytes bytes
    ((∀ n, source.answer n = lines[n]?.map shown) ↔ ∀ line ∈ lines, IsText line) ∧
      (∀ new : Controller, new.state ≠ .paused → new.source = source →
        ∀ calls, ∀ k ∈ new.history calls, ∃ n, k.source = source.after n) ∧
      ∀ (k : Controller) (n : Nat), k.source = source.after n →
        k.pause = { k with
          source := k.attended.source, singleStep := k.attended.singleStep, state := .running
          paceOrigin := none
          log := (k.log.add (pauseNotice k.cpu)).addAll k.attended.messages } ∧
        ∀ taken rest singleStep,
          PauseTakes ((lines.drop n).map shown) taken rest singleStep →
          (k.attended = ⟨taken.filterMap (reply? k.cpu.registerSummary),
              source.after (n + taken.length), singleStep⟩ ↔
            ∀ line ∈ (lines.drop n).take taken.length, IsText line) ∧
          ∀ before bad after, (lines.drop n).take taken.length = before ++ bad :: after →
            (∀ line ∈ before, IsText line) → ¬ IsText bad →
            k.attended = ⟨(before.map shown).filterMap (reply? k.cpu.registerSummary),
              source.after (n + before.length + 1), false⟩ := by
  intro source
  obtain rfl := hlines.eq_lines
  refine ⟨CommandSource.answer_ofBytes_iff bytes hshown, ?_, ?_⟩
  · intro new hstate hsource calls k hk
    rw [← hsource]
    exact leadsTo_history hstate calls k hk
  · intro k n hsource
    refine ⟨k.pause_eq, ?_⟩
    intro taken rest singleStep htakes
    have hpending : k.source.pending =
        ((CommandSource.lines bytes).drop n).map CommandSource.readLine := by
      rw [hsource, CommandSource.pending_after, List.map_drop]
      rfl
    have hleft : k.source =
        ⟨((CommandSource.lines bytes).drop n).map CommandSource.readLine, k.source.served⟩ := by
      rw [← hpending]
    have hafter (m : Nat) : source.after (n + m) = k.source.after m := by
      rw [CommandSource.after_add, ← hsource]
    rw [attended, hafter, hleft]
    refine ⟨attend_lines_iff hshown _ _ htakes, ?_⟩
    intro before bad after hread hbefore hbad
    rw [Nat.add_assoc, hafter, hleft]
    exact attend_of_not_isText hshown _ _ htakes hread hbefore hbad

/-- Two lines. The first is no UTF-8, and the second asks for a step. -/
def garbled : List UInt8 := [0xFF, 0x0A, 0x73, 0x74, 0x65, 0x70, 0x0A]

/-- A controller in single-step mode that takes its commands from these lines. -/
def listening : Controller where
  cpu := {}
  source := .ofBytes garbled
  singleStep := true

/-- These bytes are read as two lines. -/
theorem lines_garbled : CommandSource.lines garbled = [[0xFF], [0x73, 0x74, 0x65, 0x70]] := by
  decide

/-- Lines that cannot be read are taken for the empty command. -/
theorem shows_readLine : Shows fun line => (CommandSource.readLine line).getD "" where
  spelled h := by rw [CommandSource.readLine_of_spells h]; rfl
  unknown h := by
    rw [CommandSource.readLine_of_not_isText h]
    decide

/-- These bytes are made of the two lines. -/
theorem linesOf_garbled : CommandSource.LinesOf garbled [[0xFF], [0x73, 0x74, 0x65, 0x70]] :=
  lines_garbled ▸ CommandSource.linesOf_lines garbled

/-- The pause should take both lines and be over with the second, but it says nothing, leaves the
second line to the next pause and turns single-step mode off. -/
theorem ofBytes_serves_iff_garbled :
    CommandSource.LinesOf garbled [[0xFF], [0x73, 0x74, 0x65, 0x70]] ∧
      Shows (fun line => (CommandSource.readLine line).getD "") ∧
      PauseTakes ["", "step"] ["", "step"] [] true ∧
      listening.attended = ⟨[], (CommandSource.ofBytes garbled).after 1, false⟩ ∧
      listening.pause.source = (CommandSource.ofBytes garbled).after 1 := by
  have htakes : PauseTakes ["", "step"] ["", "step"] [] true :=
    @PauseTakes.resumed [""] (by decide) "step" (by decide) []
  have hshown : [[0xFF], [0x73, 0x74, 0x65, 0x70]].map
      (fun line => (CommandSource.readLine line).getD "") = ["", "step"] := by decide +kernel
  have hbad : ¬ IsText [0xFF] := by
    rintro ⟨text, htext⟩
    have hvalid := text.isValidUTF8
    rw [htext] at hvalid
    revert hvalid
    decide
  obtain ⟨-, -, hserves⟩ :=
    ofBytes_serves_iff garbled _ linesOf_garbled _ shows_readLine
  obtain ⟨hpause, htaken⟩ := hserves listening 0 rfl
  have hattended : listening.attended = ⟨[], (CommandSource.ofBytes garbled).after 1, false⟩ := by
    rw [← hshown] at htakes
    exact (htaken _ _ _ htakes).2 [] [0xFF] [[0x73, 0x74, 0x65, 0x70]] rfl (by simp) hbad
  refine ⟨linesOf_garbled, shows_readLine, htakes, hattended, ?_⟩
  rw [hpause, hattended]

/-- A line that is no UTF-8 is taken for the end of the bytes, though a line follows it: the pause
ends with no command that resumes the run, and single-step mode is lost, though the line that
follows asks for a step. -/
theorem ofBytes_closesEarly :
    CommandSource.LinesOf garbled [[0xFF], [0x73, 0x74, 0x65, 0x70]] ∧
      (CommandSource.ofBytes garbled).answer 0 = none ∧
      (CommandSource.ofBytes garbled).answer 1 = some "step" ∧
      listening.singleStep = true ∧ listening.pause.singleStep = false ∧
      listening.pause.source.answer 0 = some "step" := by
  refine ⟨linesOf_garbled, ?_, ?_, rfl, ?_, ?_⟩ <;> decide +kernel

end Controller

end Core65C02
