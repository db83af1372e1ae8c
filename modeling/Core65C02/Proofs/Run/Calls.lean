import Core65C02.Proofs.Halt
import Core65C02.Proofs.Run.Course

/-!
# Calls of a controller

Between the runs of a controller, its mode can be changed and its processor can be edited in any
way. What can be told from outside about a controller after any number of such calls is collected
here. The main statement is that the end of a program is a latch: a halted processor and a
controller whose run has ended stay as they are.
-/

namespace Core65C02

/-- What can be asked of a controller. -/
inductive Call
  /-- Single-step mode is turned on or off. -/
  | setSingleStep (on : Bool)
  /-- The program is run until it has ended. -/
  | runUntilFinish
  /-- The program is run for a number of steps. -/
  | runFor (limit : Nat)
  /-- The processor is edited. It owns the sink, which can change with it. -/
  | edit (change : Cpu × Capture → Cpu × Capture)

/-- The bound of the run that a call asks for, if it asks for one. -/
def Call.limit? : Call → Option Nat
  | runUntilFinish => some Controller.stepBound
  | runFor limit => some limit
  | setSingleStep _ | edit _ => none

namespace Controller

/-- The controller after a call. -/
def perform (k : Controller) : Call → Controller
  | .setSingleStep on => { k with singleStep := on }
  | .runUntilFinish => k.runUntilFinish.1
  | .runFor limit => (k.runFor limit).1
  | .edit change => { k with cpu := (change (k.cpu, k.log)).1, log := (change (k.cpu, k.log)).2 }

/-- The controller after calls made one after another. -/
def performAll (k : Controller) (calls : List Call) : Controller := calls.foldl perform k

/-- The controllers from which a call makes the turns of its run, if it is a run. -/
def courseOf (k : Controller) (call : Call) : List Controller := call.limit?.elim [] k.course

/-- The controllers from which calls made one after another make all their turns. -/
def history : Controller → List Call → List Controller
  | _, [] => []
  | k, call :: calls => k.courseOf call ++ (k.perform call).history calls

/-- The next step of the processor succeeds. -/
def succeeds (k : Controller) : Bool := k.cpu.step.result.isOk

/-- A step with a result succeeds. -/
theorem succeeds_of_ok {k : Controller} {r : StepResult} (hresult : k.cpu.step.result = .ok r) :
    k.succeeds = true := by
  rw [succeeds, hresult]
  rfl

/-- A step with a fault does not succeed. -/
theorem succeeds_of_error {k : Controller} {fault : Fault}
    (hfault : k.cpu.step.result = .error fault) : k.succeeds = false := by
  rw [succeeds, hfault]
  rfl

namespace Runs

variable {limit : Nat} {k : Controller} {course : List Controller}
  {out : Controller × Except Fault RunOutcome}

/-- A run counts the steps that succeed. -/
theorem steps_eq (h : Runs limit k course out) :
    out.1.steps = k.steps + course.countP succeeds := by
  induction h with
  | finished | atLimit => rfl
  | failed _ hfault =>
    rw [steps_turn_of_error hfault, List.countP_singleton, succeeds_of_error hfault]
    rfl
  | turn _ hresult _ ih =>
    rw [ih, steps_turn_of_ok hresult, List.countP_cons, succeeds_of_ok hresult, if_pos rfl]
    omega

/-- A run that fails can be taken up again. -/
theorem state_of_error (h : Runs limit k course out) {fault : Fault}
    (hout : out.2 = .error fault) : out.1.state = .running := by
  induction h with
  | finished | atLimit => cases hout
  | failed hrunning hfault => exact state_turn_of_error hrunning hfault
  | turn _ _ _ ih => exact ih hout

/-- A run ends with a step that finds or makes the program ended. -/
theorem last_of_finished (h : Runs limit k course out) (hstate : k.state ≠ .finished)
    (hfinished : out.1.state = .finished) :
    ∃ last, course.getLast? = some last ∧ last.cpu.step.result = .ok .finished := by
  induction h with
  | finished hfinished' => exact absurd hfinished' hstate
  | atLimit hrunning =>
    rw [hrunning] at hfinished
    cases hfinished
  | failed hrunning hfault =>
    rw [state_turn_of_error hrunning hfault] at hfinished
    cases hfinished
  | @turn limit k hrunning r hresult later out hlater ih =>
    have hturn := state_turn_of_ok hrunning hresult
    by_cases hr : r = .finished
    · -- the loop makes no turn after this one
      rw [if_pos hr] at hturn
      obtain ⟨rfl, -⟩ := hlater.of_finished hturn
      exact ⟨k, rfl, hr ▸ hresult⟩
    · rw [if_neg hr] at hturn
      obtain ⟨last, hlast, hlastResult⟩ := ih (by simp [hturn]) hfinished
      refine ⟨last, ?_, hlastResult⟩
      rw [List.getLast?_cons, hlast]
      rfl

end Runs

/-- A call that asks for a run is a run within the bound that it has. -/
theorem perform_of_limit (k : Controller) {call : Call} {limit : Nat}
    (hlimit : call.limit? = some limit) :
    k.perform call = (k.runFor limit).1 ∧ k.courseOf call = k.course limit := by
  unfold courseOf
  cases call with
  | setSingleStep | edit => cases hlimit
  | runUntilFinish | runFor =>
    cases hlimit
    exact ⟨rfl, rfl⟩

/-- A call that asks for no run leaves the state and the count of steps alone and makes no turns. -/
theorem perform_of_no_limit (k : Controller) {call : Call} (hlimit : call.limit? = none) :
    (k.perform call).state = k.state ∧ (k.perform call).steps = k.steps ∧
      k.courseOf call = [] := by
  unfold courseOf
  cases call with
  | runUntilFinish | runFor => cases hlimit
  | setSingleStep | edit => exact ⟨rfl, rfl, rfl⟩

/-- A call leaves no controller paused and counts the successful steps that it makes. -/
theorem state_and_steps_perform {k : Controller} (hstate : k.state ≠ .paused) (call : Call) :
    (k.perform call).state ≠ .paused ∧
      (k.perform call).steps = k.steps + (k.courseOf call).countP succeeds := by
  cases hlimit : call.limit? with
  | none =>
    obtain ⟨hstate', hsteps, hcourse⟩ := k.perform_of_no_limit hlimit
    rw [hstate', hsteps, hcourse]
    exact ⟨hstate, rfl⟩
  | some limit =>
    obtain ⟨hperform, hcourse⟩ := k.perform_of_limit hlimit
    rw [hperform, hcourse]
    have hruns := runs_runFor hstate limit
    exact ⟨hruns.state_ne_paused, hruns.steps_eq⟩

/-- The same after any number of calls. -/
theorem state_and_steps_performAll {k : Controller} (hstate : k.state ≠ .paused)
    (calls : List Call) :
    (k.performAll calls).state ≠ .paused ∧
      (k.performAll calls).steps = k.steps + (k.history calls).countP succeeds := by
  induction calls generalizing k with
  | nil => exact ⟨hstate, rfl⟩
  | cons call calls ih =>
    obtain ⟨hstate', hsteps⟩ := state_and_steps_perform hstate call
    obtain ⟨hstate'', hsteps'⟩ := ih hstate'
    refine ⟨hstate'', ?_⟩
    rw [history, List.countP_append, ← Nat.add_assoc, ← hsteps, ← hsteps']
    rfl

/-- Where the run has ended, running changes nothing. -/
theorem runFor_of_finished {k : Controller} (hfinished : k.state = .finished) (limit : Nat) :
    k.runFor limit = (k, .ok (.finished k.steps)) := by
  rw [runFor_of_ne_paused (by simp [hfinished]), loop_of_finished k hfinished]

/-- When the run has ended, no call takes that back or counts another step. -/
theorem performAll_of_finished {k : Controller} (hfinished : k.state = .finished)
    (calls : List Call) :
    (k.performAll calls).state = .finished ∧ (k.performAll calls).steps = k.steps := by
  induction calls generalizing k with
  | nil => exact ⟨hfinished, rfl⟩
  | cons call calls ih =>
    obtain ⟨hstate, hsteps⟩ :
        (k.perform call).state = .finished ∧ (k.perform call).steps = k.steps := by
      cases hlimit : call.limit? with
      | none =>
        obtain ⟨hstate, hsteps, _⟩ := k.perform_of_no_limit hlimit
        exact ⟨hstate.trans hfinished, hsteps⟩
      | some limit =>
        rw [(k.perform_of_limit hlimit).1, runFor_of_finished hfinished]
        exact ⟨hfinished, rfl⟩
    obtain ⟨hstate', hsteps'⟩ := ih hstate
    exact ⟨hstate', hsteps'.trans hsteps⟩

/-- To run to the end is to run within the greatest bound. -/
theorem runUntilFinish_eq (k : Controller) :
    k.runUntilFinish =
      ((k.runFor stepBound).1, (k.runFor stepBound).2.map RunOutcome.steps) :=
  rfl

/-- A run to the end that fails is left running. -/
theorem state_runUntilFinish_of_error {k : Controller} (hstate : k.state ≠ .paused) {fault : Fault}
    (hfault : k.runUntilFinish.2 = .error fault) : k.runUntilFinish.1.state = .running := by
  rw [runUntilFinish_eq] at hfault ⊢
  cases hout : (k.runFor stepBound).2 with
  | ok outcome =>
    rw [hout] at hfault
    cases hfault
  | error fault' => exact (runs_runFor hstate stepBound).state_of_error hout

/-- A call in which the run ends is a run, with a last step that finds or makes the program
ended. -/
theorem exists_last_of_perform {k : Controller} (hstate : k.state ≠ .paused) {call : Call}
    (hbefore : k.state ≠ .finished) (hafter : (k.perform call).state = .finished) :
    ∃ last, (k.courseOf call).getLast? = some last ∧ last.cpu.step.result = .ok .finished := by
  cases hlimit : call.limit? with
  | none =>
    rw [(k.perform_of_no_limit hlimit).1] at hafter
    exact absurd hafter hbefore
  | some limit =>
    obtain ⟨hperform, hcourse⟩ := k.perform_of_limit hlimit
    rw [hperform] at hafter
    rw [hcourse]
    exact (runs_runFor hstate limit).last_of_finished hbefore hafter

/-- The end of a program is a latch. A step of any dispatch says that the program has ended exactly
if the processor is halted after it, and a halted processor never changes again. A new controller is
running, and after any calls it is running or its run has ended, with a count of all the steps that
its runs have made successfully. A run that fails leaves it running. The run ends only in a call
whose last step says that the program has ended, and from then on, whatever is done to the mode and
the processor, it has ended with that count of steps: to run again changes nothing. -/
theorem end_latches (new : Controller) (hrunning : new.state = .running) (hsteps : new.steps = 0)
    (calls : List Call) :
    (∀ c : Cpu, (c.step.result = .ok .finished ↔ c.step.cpu.halted = true) ∧
      (c.halted = true → ∀ n, c.after n = c)) ∧
    let k := new.performAll calls
    k.state ≠ .paused ∧ k.steps = (new.history calls).countP succeeds ∧
    (∀ fault, (∀ limit, (k.runFor limit).2 = .error fault →
        (k.runFor limit).1.state = .running) ∧
      (k.runUntilFinish.2 = .error fault → k.runUntilFinish.1.state = .running)) ∧
    (∀ call, k.state ≠ .finished → (k.perform call).state = .finished →
      ∃ last, (k.courseOf call).getLast? = some last ∧
        last.cpu.step.result = .ok .finished) ∧
    (k.state = .finished → ∀ later,
      let k' := k.performAll later
      k'.state = .finished ∧ k'.steps = k.steps ∧
        (∀ limit, k'.runFor limit = (k', .ok (.finished k.steps))) ∧
        k'.runUntilFinish = (k', .ok k.steps)) := by
  have hnew : new.state ≠ .paused := by simp [hrunning]
  obtain ⟨hstate, hcount⟩ := state_and_steps_performAll hnew calls
  rw [hsteps, Nat.zero_add] at hcount
  refine ⟨fun c => ⟨c.step_result_eq_finished_iff, Cpu.after_of_halted⟩, hstate, hcount, ?_, ?_, ?_⟩
  · intro fault
    exact ⟨fun limit => (runs_runFor hstate limit).state_of_error,
      state_runUntilFinish_of_error hstate⟩
  · intro call hbefore hafter
    exact exists_last_of_perform hstate hbefore hafter
  · intro hfinished later
    obtain ⟨hfinished', hsteps'⟩ := performAll_of_finished hfinished later
    refine ⟨hfinished', hsteps', fun limit => ?_, ?_⟩
    · rw [runFor_of_finished hfinished', hsteps']
    · rw [runUntilFinish_eq, runFor_of_finished hfinished', ← hsteps']
      rfl

/-- A new controller whose next instruction ends the program. -/
def aboutToEnd : Controller where
  cpu := {}

/-- A run of two steps is over after the first. -/
theorem runFor_aboutToEnd : (aboutToEnd.runFor 2).1.state = .finished := by
  have hresult : aboutToEnd.cpu.step.result = .ok .finished := Cpu.step_zeros.1
  have hruns := runs_runFor (show aboutToEnd.state ≠ .paused by decide) 2
  rw [(hruns.of_ending Nat.two_pos rfl hresult).2]
  exact state_turn_of_ok rfl hresult

/-- The run has ended and stays so, however the processor is edited. -/
theorem end_latches_aboutToEnd :
    aboutToEnd.state = .running ∧ aboutToEnd.steps = 0 ∧
      (aboutToEnd.performAll [.runFor 2]).state = .finished ∧
      ∀ change, ((aboutToEnd.performAll [.runFor 2]).performAll
        [.edit change, .setSingleStep true, .runUntilFinish]).state = .finished := by
  have hperform (k : Controller) : k.performAll [.runFor 2] = (k.runFor 2).1 := rfl
  have hended : (aboutToEnd.performAll [.runFor 2]).state = .finished := by
    rw [hperform, runFor_aboutToEnd]
  obtain ⟨_, _, _, _, _, hstays⟩ := end_latches aboutToEnd rfl rfl [.runFor 2]
  exact ⟨rfl, rfl, hended, fun change => (hstays hended _).1⟩

end Controller

end Core65C02
