import Core65C02.Proofs.Run.Course
import Mathlib.Data.List.Chain

/-!
# Pauses

A pause takes commands from a script until one of them resumes the run or none is left. Which these
are, how each of them is answered and after which steps a pause is due is stated here apart from the
loop. The main statement follows a run turn by turn: there is one pause after each step after which
one is due and none at any other time, it takes and answers just those commands, and the source
counts what it has handed out.
-/

namespace Core65C02

/-- A command text that resumes a paused run; blanks around it do not matter. -/
def Resumes (line : String) : Prop :=
  Text.trim line = "c" ∨ Text.trim line = "continue" ∨ Text.trim line = "step"

instance decidableResumes (line : String) : Decidable (Resumes line) :=
  inferInstanceAs (Decidable (_ ∨ _ ∨ _))

/-- How a pause answers a command text, if it says anything. Registers are reported as `summary`. -/
def reply? (summary line : String) : Option Message :=
  if Text.trim line = "regs" then some ⟨.info, summary⟩
  else if Text.trim line = "step" then some ⟨.info, "Single Step Mode Enabled"⟩
  else if Resumes line then none
  else some ⟨.warn, "Unknown command `" ++ line ++ "`. " ++ commandPrompt⟩

/-- What a pause takes from a script and what it leaves: it takes the shortest part at the beginning
that ends in a text that resumes the run, or everything if there is none. Afterwards the run is in
single-step mode if that text is a request for it. -/
inductive PauseTakes : (script taken rest : List String) → (singleStep : Bool) → Prop
  /-- The last text that is taken resumes the run. -/
  | resumed {before : List String} (hbefore : ∀ line ∈ before, ¬ Resumes line) {last : String}
    (hlast : Resumes last) (rest : List String) :
    PauseTakes (before ++ last :: rest) (before ++ [last]) rest (Text.trim last = "step")
  /-- No text resumes the run, which goes on because the source is closed. -/
  | exhausted {script : List String} (hnone : ∀ line ∈ script, ¬ Resumes line) :
    PauseTakes script script [] false

/-- Of every script a pause takes something. -/
theorem exists_pauseTakes (script : List String) :
    ∃ taken rest singleStep, PauseTakes script taken rest singleStep := by
  induction script with
  | nil => exact ⟨[], [], false, .exhausted (by simp)⟩
  | cons line script ih =>
    by_cases hline : Resumes line
    · exact ⟨_, _, _, @PauseTakes.resumed [] (by simp) line hline script⟩
    · obtain ⟨taken, rest, singleStep, h⟩ := ih
      cases h with
      | @resumed before hbefore last hlast =>
        have hbefore : ∀ other ∈ line :: before, ¬ Resumes other := by simpa [hline] using hbefore
        exact ⟨_, _, _, .resumed hbefore hlast rest⟩
      | exhausted hnone =>
        have hnone : ∀ other ∈ line :: script, ¬ Resumes other := by simpa [hline] using hnone
        exact ⟨_, _, _, .exhausted hnone⟩

example :
    PauseTakes [" regs ", "quit", "step\n", "continue", "c"] [" regs ", "quit", "step\n"]
      ["continue", "c"] true := by
  have hbefore : ∀ line ∈ [" regs ", "quit"], ¬ Resumes line := by decide
  exact .resumed hbefore (show Resumes "step\n" by decide) ["continue", "c"]

/-- What is taken and what is left make up the script. -/
theorem PauseTakes.append_eq {script taken rest : List String} {singleStep : Bool}
    (h : PauseTakes script taken rest singleStep) : taken ++ rest = script := by
  cases h <;> simp

/-- Only the last text that is taken can resume the run. -/
theorem PauseTakes.not_resumes {script taken rest : List String} {singleStep : Bool}
    (h : PauseTakes script taken rest singleStep) : ∀ line ∈ taken.dropLast, ¬ Resumes line := by
  cases h with
  | resumed hbefore => rwa [List.dropLast_concat]
  | exhausted hnone => exact fun line hline => hnone line (List.dropLast_subset _ hline)

/-- A text that resumes the run is the command to step or the command to go on. -/
theorem Command.parse?_of_resumes {line : String} (hline : Resumes line) :
    Command.parse? line = if Text.trim line = "step" then some .step else some .resume := by
  unfold Command.parse?
  rcases hline with h | h | h <;> rw [h] <;> rfl

/-- A text that does not resume the run is the command for the registers or none. -/
theorem Command.parse?_of_not_resumes {line : String} (hline : ¬ Resumes line) :
    Command.parse? line = if Text.trim line = "regs" then some .registers else none := by
  unfold Resumes at hline
  unfold Command.parse?
  split <;> simp_all

/-- A text that resumes the run is answered and ends the pause. -/
theorem attend_of_resumes (summary : String) {line : String} (hline : Resumes line)
    (rest : List (Option String)) (served : Nat) :
    attend summary (some line :: rest) served =
      ⟨(reply? summary line).toList, ⟨rest, served + 1⟩, Text.trim line = "step"⟩ := by
  rw [attend, Command.parse?_of_resumes hline]
  unfold reply?
  rcases hline with h | h | h <;> simp [h, Resumes]

/-- A text that does not resume the run is answered, and the pause goes on behind it. -/
theorem attend_of_not_resumes (summary : String) {line : String} (hline : ¬ Resumes line)
    (rest : List (Option String)) (served : Nat) :
    attend summary (some line :: rest) served =
      let later := attend summary rest (served + 1)
      { later with messages := (reply? summary line).toList ++ later.messages } := by
  rw [attend, Command.parse?_of_not_resumes hline]
  unfold reply?
  by_cases hregs : Text.trim line = "regs"
  · simp [hregs]
  · have hstep : Text.trim line ≠ "step" := fun h => hline (.inr (.inr h))
    simp [hregs, hstep, hline]

/-- Texts that do not resume the run are answered one after another, and then the pause goes on. -/
theorem attend_append (summary : String) {before : List String}
    (hbefore : ∀ line ∈ before, ¬ Resumes line) (later : List (Option String)) (served : Nat) :
    attend summary (before.map some ++ later) served =
      let rest := attend summary later (served + before.length)
      { rest with messages := before.filterMap (reply? summary) ++ rest.messages } := by
  rw [List.filterMap_eq_flatMap_toList]
  induction before generalizing served with
  | nil => rfl
  | cons line before ih =>
    obtain ⟨hline, hbefore⟩ := List.forall_mem_cons.mp hbefore
    rw [List.map_cons, List.cons_append, attend_of_not_resumes summary hline, ih hbefore]
    simp [Nat.add_assoc, Nat.add_comm 1]

/-- What a pause takes is answered in order. What the source has left behind that does not matter. -/
theorem attend_of_takes_append {script taken rest : List String} {singleStep : Bool}
    (h : PauseTakes script taken rest singleStep) (summary : String) {later : List (Option String)}
    (hlater : later.length = rest.length) (served : Nat) :
    attend summary (taken.map some ++ later) served =
      ⟨taken.filterMap (reply? summary), ⟨later, served + taken.length⟩, singleStep⟩ := by
  cases h with
  | @resumed before hbefore last hlast =>
    rw [List.map_append, List.append_assoc, attend_append summary hbefore, List.map_singleton,
      List.singleton_append, attend_of_resumes summary hlast]
    cases hreply : reply? summary last <;> simp [hreply, Nat.add_assoc]
  | exhausted hnone =>
    obtain rfl : later = [] := List.length_eq_zero_iff.mp hlater
    rw [attend_append summary hnone]
    simp [attend]

/-- A pause takes what it should, and answers it in order. -/
theorem attend_of_takes {script taken rest : List String} {singleStep : Bool}
    (h : PauseTakes script taken rest singleStep) (summary : String) (served : Nat) :
    attend summary (script.map some) served =
      ⟨taken.filterMap (reply? summary), ⟨rest.map some, served + taken.length⟩, singleStep⟩ := by
  rw [← h.append_eq, List.map_append, attend_of_takes_append h summary (List.length_map some)]

/-- A source hands out the texts of a script in order and counts them. -/
def CommandSource.Serves (source : CommandSource) (script : List String) : Prop :=
  ∃ removed rest, script = removed ++ rest ∧ source = ⟨rest.map some, removed.length⟩

/-- A source that is made of a script serves it. -/
theorem CommandSource.serves_ofScript (script : List String) :
    (CommandSource.ofScript script).Serves script :=
  ⟨[], script, rfl, rfl⟩

namespace Controller

/-- The messages of a step: the trace of what is about to be executed, and what is reported. -/
def stepMessages (k : Controller) : List Message :=
  ⟨.trace, traceLine k.cpu⟩ :: k.cpu.step.report.map fun text => ⟨.info, text⟩

/-- The messages of a pause: the notice with which it begins, and the answers to the texts. -/
def pauseMessages (cpu : Cpu) (taken : List String) : List Message :=
  pauseNotice cpu :: taken.filterMap (reply? cpu.registerSummary)

/-- The message of the end of a run, if a step that succeeds with `r` is the end of it. -/
def endMessages (r : StepResult) (steps : Nat) : List Message :=
  if r = .finished then [⟨.info, "Finished after " ++ toString steps ++ " steps"⟩] else []

/-- The ways in which a turn can go, as far as a user can see it. Messages are given in order; what
the filter of the sink does not admit is not kept. -/
inductive TurnsTo (k k' : Controller) : Prop
  /-- A pause is due: there is one pause after the step, before the run ends. -/
  | paused (hcpu : k'.cpu = k.cpu.step.cpu) (r : StepResult)
    (hresult : k.cpu.step.result = .ok r) (hsteps : k'.steps = k.steps + 1)
    (hdue : r = .pause ∨ k.singleStep = true) (script taken rest : List String)
    (htakes : PauseTakes script taken rest k'.singleStep)
    (hbefore : k.source.pending = script.map some)
    (hafter : k'.source = ⟨rest.map some, k.source.served + taken.length⟩)
    (hlog : k'.log = k.log.addAll
      (k.stepMessages ++ pauseMessages k'.cpu taken ++ endMessages r k'.steps))
    (hstate : k'.state = if r = .finished then .finished else .running)
  /-- No pause is due. -/
  | unpaused (hcpu : k'.cpu = k.cpu.step.cpu) (r : StepResult)
    (hresult : k.cpu.step.result = .ok r) (hsteps : k'.steps = k.steps + 1)
    (hdue : ¬ (r = .pause ∨ k.singleStep = true)) (hsource : k'.source = k.source)
    (hmode : k'.singleStep = k.singleStep)
    (hlog : k'.log = k.log.addAll (k.stepMessages ++ endMessages r k'.steps))
    (hstate : k'.state = if r = .finished then .finished else .running)
  /-- The step fails, and there is no pause. -/
  | failed (hcpu : k'.cpu = k.cpu.step.cpu) (fault : Fault)
    (hfault : k.cpu.step.result = .error fault) (hsteps : k'.steps = k.steps)
    (hsource : k'.source = k.source) (hmode : k'.singleStep = k.singleStep)
    (hlog : k'.log = k.log.addAll k.stepMessages) (hstate : k'.state = .running)

end Controller

namespace Capture

/-- Messages are kept in order. -/
theorem addAll_cons (log : Capture) (m : Message) (ms : List Message) :
    log.addAll (m :: ms) = (log.add m).addAll ms :=
  rfl

/-- Messages can be kept in two parts. -/
theorem addAll_append (log : Capture) (ms ms' : List Message) :
    log.addAll (ms ++ ms') = (log.addAll ms).addAll ms' :=
  List.foldl_append

end Capture

namespace Controller

/-- The sink does not admit a trace that is not made. -/
theorem trace_eq_add (log : Capture) (cpu : Cpu) :
    trace log cpu = log.add ⟨.trace, traceLine cpu⟩ := by
  unfold trace Capture.log Capture.add
  split <;> rfl

/-- What instructions report is kept as information. -/
theorem keepReport_eq_addAll (log : Capture) (report : List String) :
    keepReport log report = log.addAll (report.map fun text => ⟨.info, text⟩) := by
  unfold keepReport Capture.addAll
  rw [List.foldl_map]
  rfl

/-- An attempt of a step keeps its trace and what the instruction reports. -/
theorem log_attempted (k : Controller) : k.attempted.log = k.log.addAll k.stepMessages := by
  rw [stepMessages, Capture.addAll_cons, ← trace_eq_add, ← keepReport_eq_addAll]
  rfl

/-- A pause is due if the program asks for it or in single-step mode. -/
theorem isSome_pauseReason?_iff (k : Controller) (r : StepResult) :
    (k.pauseReason? r).isSome = true ↔ r = .pause ∨ k.singleStep = true := by
  cases r <;> cases hsingle : k.singleStep <;> simp [pauseReason?, hsingle]

/-- What the end of a run leaves alone, and what it says. -/
theorem finish_if (k : Controller) (r : StepResult) :
    let ended := if r = .finished then k.finish else k
    ended.source = k.source ∧ ended.singleStep = k.singleStep ∧
      ended.log = k.log.addAll (endMessages r k.steps) := by
  cases r <;> exact ⟨rfl, rfl, rfl⟩

/-- What a pause does to the source, the mode and the sink. -/
theorem pauseFor_of_takes (k : Controller) {script taken rest : List String} {singleStep : Bool}
    (htakes : PauseTakes script taken rest singleStep)
    (hscript : k.source.pending = script.map some) (reason : PauseReason) :
    (k.pauseFor reason).source = ⟨rest.map some, k.source.served + taken.length⟩ ∧
      (k.pauseFor reason).singleStep = singleStep ∧
      (k.pauseFor reason).log = k.log.addAll (pauseMessages k.cpu taken) := by
  have hattend := attend_of_takes htakes k.cpu.registerSummary k.source.served
  unfold pauseFor pause
  rw [hscript, hattend]
  exact ⟨rfl, rfl, rfl⟩

/-- After a step after which a pause is due, there is one pause, and then the run may end. -/
theorem settle_of_due {k : Controller} {r : StepResult} (hdue : r = .pause ∨ k.singleStep = true)
    {script taken rest : List String} {singleStep : Bool}
    (htakes : PauseTakes script taken rest singleStep)
    (hscript : k.source.pending = script.map some) :
    (k.settle r).source = ⟨rest.map some, k.source.served + taken.length⟩ ∧
      (k.settle r).singleStep = singleStep ∧
      (k.settle r).log = k.log.addAll (pauseMessages k.cpu taken ++ endMessages r k.steps) := by
  obtain ⟨reason, hreason⟩ := Option.isSome_iff_exists.mp ((k.isSome_pauseReason?_iff r).mpr hdue)
  obtain ⟨hsource, hmode, hlog⟩ := k.pauseFor_of_takes htakes hscript reason
  obtain ⟨hsource', hmode', hlog'⟩ := (k.pauseFor reason).finish_if r
  have hsettle : k.settle r =
      if r = .finished then (k.pauseFor reason).finish else k.pauseFor reason := by
    rw [settle_eq, hreason]
    rfl
  rw [hsettle, Capture.addAll_append, ← hlog]
  exact ⟨hsource'.trans hsource, hmode'.trans hmode, hlog'⟩

/-- After any other step, the run may end at once. -/
theorem settle_of_not_due {k : Controller} {r : StepResult}
    (hdue : ¬ (r = .pause ∨ k.singleStep = true)) :
    (k.settle r).source = k.source ∧ (k.settle r).singleStep = k.singleStep ∧
      (k.settle r).log = k.log.addAll (endMessages r k.steps) := by
  have hreason : k.pauseReason? r = none := by
    rw [← Option.not_isSome_iff_eq_none, k.isSome_pauseReason?_iff r]
    exact hdue
  have hsettle : k.settle r = if r = .finished then k.finish else k := by
    rw [settle_eq, hreason]
    rfl
  rw [hsettle]
  exact k.finish_if r

/-- Every turn of a running controller whose commands come from a script goes one of these ways. -/
theorem turnsTo_turn {k : Controller} (hrunning : k.state = .running) {script : List String}
    (hscript : k.source.pending = script.map some) : k.TurnsTo k.turn := by
  cases hresult : k.cpu.step.result with
  | error fault =>
    have hturn := turn_of_error hresult
    refine .failed cpu_turn fault hresult (steps_turn_of_error hresult) ?_ ?_ ?_
      (state_turn_of_error hrunning hresult)
    · rw [hturn, source_attempted]
    · rw [hturn, singleStep_attempted]
    · rw [hturn, log_attempted]
  | ok r =>
    have hsteps := steps_turn_of_ok hresult
    have hstate := state_turn_of_ok hrunning hresult
    have hturn := turn_of_ok hresult
    have hsource : k.advanced.source = k.source := k.source_attempted
    have hmode : k.advanced.singleStep = k.singleStep := k.singleStep_attempted
    have hlog : k.advanced.log = k.log.addAll k.stepMessages := k.log_attempted
    by_cases hdue : r = .pause ∨ k.singleStep = true
    · obtain ⟨taken, rest, singleStep, htakes⟩ := exists_pauseTakes script
      obtain ⟨hsource', hmode', hlog'⟩ :=
        settle_of_due (hmode ▸ hdue) htakes (by rw [hsource, hscript])
      refine .paused cpu_turn r hresult hsteps hdue script taken rest ?_ hscript ?_ ?_ hstate
      · rwa [hturn, singleStep_pace, hmode']
      · rw [hturn, source_pace, hsource', hsource]
      · rw [cpu_turn, hsteps, List.append_assoc, Capture.addAll_append, ← hlog, hturn, log_pace, hlog']
        rfl
    · obtain ⟨hsource', hmode', hlog'⟩ := settle_of_not_due (hmode ▸ hdue)
      refine .unpaused cpu_turn r hresult hsteps hdue ?_ ?_ ?_ hstate
      · rw [hturn, source_pace, hsource', hsource]
      · rw [hturn, singleStep_pace, hmode', hmode]
      · rw [hsteps, Capture.addAll_append, ← hlog, hturn, log_pace, hlog']
        rfl

/-- Each turn hands out what its pause takes, if it makes one. -/
theorem TurnsTo.serves {k k' : Controller} (h : k.TurnsTo k') {script : List String}
    (hserves : k.source.Serves script) : k'.source.Serves script := by
  cases h with
  | unpaused _ _ _ _ _ hsource => rwa [hsource]
  | failed _ _ _ _ hsource => rwa [hsource]
  | paused _ _ _ _ _ commands taken rest htakes hbefore hafter =>
    obtain ⟨removed, left, hscript, hsource⟩ := hserves
    have hleft : left = commands := by
      rw [hsource] at hbefore
      exact List.map_injective_iff.mpr (fun _ _ => Option.some.inj) hbefore
    refine ⟨removed ++ taken, rest, ?_, ?_⟩
    · rw [hscript, hleft, ← htakes.append_eq, List.append_assoc]
    · rw [hafter, hsource, List.length_append]

/-- The controllers of a run of scripted commands, from its first to the one that comes back, follow
each other as turns can go. -/
theorem Runs.isChain {limit : Nat} {k : Controller} {course : List Controller}
    {out : Controller × Except Fault RunOutcome} (h : Runs limit k course out)
    {script : List String} (hserves : k.source.Serves script) :
    (course ++ [out.1]).head? = some k ∧ (course ++ [out.1]).IsChain TurnsTo ∧
      out.1.source.Serves script := by
  induction h with
  | finished | atLimit => exact ⟨rfl, .singleton _, hserves⟩
  | failed hrunning hfault =>
    obtain ⟨removed, rest, hscript, hsource⟩ := id hserves
    have hturn := turnsTo_turn hrunning (congrArg CommandSource.pending hsource)
    exact ⟨rfl, .cons_cons hturn (.singleton _), hturn.serves hserves⟩
  | turn hrunning hresult _ ih =>
    obtain ⟨removed, rest, hscript, hsource⟩ := id hserves
    have hturn := turnsTo_turn hrunning (congrArg CommandSource.pending hsource)
    obtain ⟨hhead, hchain, hserves'⟩ := ih (hturn.serves hserves)
    refine ⟨rfl, List.isChain_cons.mpr ⟨?_, hchain⟩, hserves'⟩
    intro next hnext
    obtain rfl := Option.some.inj (hhead.symm.trans hnext)
    exact hturn

/-- Pauses follow the protocol, in every run whose commands come from a script and with single-step
mode on or off at first. From the first controller of the run to the one that comes back, each step
that succeeds is followed by one pause if it asked for a pause or single-step mode was on, the step
that finishes the program included, and then the pause comes before the end of the run; there is no
other pause. Each pause takes the commands up to the first that resumes the run, answers them in
order and leaves single-step mode as that command demands. What the source has counted is what was
taken from the script. -/
theorem runFor_pauses (k : Controller) (script : List String) (n : Nat)
    (hstate : k.state ≠ .paused) (hserves : k.source.Serves script) :
    (k.course n ++ [(k.runFor n).1]).head? = some k ∧
      (k.course n ++ [(k.runFor n).1]).IsChain TurnsTo ∧
      (k.runFor n).1.source.Serves script :=
  (runs_runFor hstate n).isChain hserves

/-- A controller in single-step mode whose program asks for a pause itself, with commands that have
blanks around them, one that is none, and one that is never taken. -/
def stepping : Controller where
  cpu := breakpointed
  source := .ofScript [" regs ", "quit", "step\n", "continue", "c"]
  singleStep := true

/-- The run goes turn by turn from its controller on, and its commands are served from the
script. -/
theorem runFor_pauses_stepping :
    stepping.source.Serves [" regs ", "quit", "step\n", "continue", "c"] ∧
      (stepping.course 2 ++ [(stepping.runFor 2).1]).head? = some stepping ∧
      (stepping.course 2 ++ [(stepping.runFor 2).1]).IsChain TurnsTo ∧
      (stepping.runFor 2).1.source.Serves [" regs ", "quit", "step\n", "continue", "c"] :=
  have hserves := CommandSource.serves_ofScript _
  ⟨hserves, runFor_pauses stepping _ 2 (by decide) hserves⟩

end Controller

end Core65C02
