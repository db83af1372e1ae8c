import Core65C02.Proofs.Run.Basic

/-!
# The course of a run

The loop of a run makes one turn after another: a step and, if it succeeds, what follows it. What a
turn does is said here once, and the course of a run lists the controllers from which its turns are
made, so that facts about runs are proved turn by turn. The main statement is that a run can be
interrupted anywhere: a run that came back and is taken up again is one run within both bounds.
-/

namespace Core65C02.Controller

variable (k : Controller)

/-- Pacing leaves the source of commands alone. -/
@[simp] theorem source_pace : k.pace.source = k.source := by
  unfold pace
  split <;> rfl

/-- Pacing leaves single-step mode alone. -/
@[simp] theorem singleStep_pace : k.pace.singleStep = k.singleStep := by
  unfold pace
  split <;> rfl

/-- Pacing leaves the counters alone. -/
@[simp] theorem metrics_pace : k.pace.metrics = k.metrics := by
  unfold pace
  split <;> rfl

/-- Pacing says nothing. -/
@[simp] theorem log_pace : k.pace.log = k.log := by
  unfold pace
  split <;> rfl

/-- The controller after its processor has tried a step: the coming step was traced, and what the
instruction reported was kept. -/
def attempted : Controller :=
  { k.pace with
    cpu := k.cpu.step.cpu
    log := keepReport (trace k.log k.cpu) k.cpu.step.report }

/-- The controller after its processor has made a step: the step is counted. -/
def advanced : Controller :=
  { k.attempted with
    steps := k.steps + 1
    metrics := tally k.metrics k.cpu.pc k.cpu.step.cpu.last }

/-- One turn of the loop. -/
def turn : Controller :=
  match k.cpu.step.result with
  | .ok r => (k.advanced.settle r).pace
  | .error _ => k.attempted

/-- An attempt of a step takes no command. -/
@[simp] theorem source_attempted : k.attempted.source = k.source := k.source_pace

/-- An attempt of a step leaves the state of the run alone. -/
@[simp] theorem state_attempted : k.attempted.state = k.state := k.state_pace

/-- An attempt of a step leaves single-step mode alone. -/
@[simp] theorem singleStep_attempted : k.attempted.singleStep = k.singleStep := k.singleStep_pace

/-- An attempt of a step is not counted as a step. -/
@[simp] theorem steps_attempted : k.attempted.steps = k.steps := k.steps_pace

/-- An attempt of a step leaves the counters alone. -/
@[simp] theorem metrics_attempted : k.attempted.metrics = k.metrics := k.metrics_pace

/-- Why a pause follows a step that succeeds with `r`, if one follows. -/
def pauseReason? : StepResult → Option PauseReason
  | .pause => some .breakpoint
  | .finished | .proceed => if k.singleStep then some .singleStep else none

/-- What follows a step: the pause that is due, and then the end of the run, if the step finished
the program. -/
theorem settle_eq (r : StepResult) :
    k.settle r =
      let settled := (k.pauseReason? r).elim k k.pauseFor
      if r = .finished then settled.finish else settled := by
  cases r <;> cases hsingle : k.singleStep <;> simp [settle, pauseReason?, hsingle]

section Turn

variable {k} {r : StepResult} {fault : Fault}

/-- A step of the loop that succeeds leads to the controller that is advanced. -/
theorem pace_stepOnce_of_ok (hresult : k.cpu.step.result = .ok r) :
    k.pace.stepOnce = (k.advanced, .ok r) := by
  unfold stepOnce advanced attempted pace
  by_cases hpaced : k.isPaced = true
  · simp only [if_pos hpaced, hresult]
  · simp only [if_neg hpaced, hresult]

/-- A step of the loop that fails leads no further than the attempt. -/
theorem pace_stepOnce_of_error (hfault : k.cpu.step.result = .error fault) :
    k.pace.stepOnce = (k.attempted, .error fault) := by
  unfold stepOnce attempted pace
  by_cases hpaced : k.isPaced = true
  · simp only [if_pos hpaced, hfault]
  · simp only [if_neg hpaced, hfault]

/-- A turn is an advance, and what follows it, if the step succeeds. -/
theorem turn_of_ok (hresult : k.cpu.step.result = .ok r) :
    k.turn = (k.advanced.settle r).pace := by
  rw [turn, hresult]

/-- A turn is an attempt if the step fails. -/
theorem turn_of_error (hfault : k.cpu.step.result = .error fault) : k.turn = k.attempted := by
  rw [turn, hfault]

/-- To the processor a turn is a step. -/
@[simp] theorem cpu_turn : k.turn.cpu = k.cpu.step.cpu := by
  unfold turn
  cases k.cpu.step.result with
  | ok r => rw [cpu_pace, cpu_settle]; rfl
  | error fault => rfl

/-- A turn that succeeds is counted. -/
theorem steps_turn_of_ok (hresult : k.cpu.step.result = .ok r) : k.turn.steps = k.steps + 1 := by
  rw [turn_of_ok hresult, steps_pace, steps_settle]
  rfl

/-- A turn that fails is not counted. -/
theorem steps_turn_of_error (hfault : k.cpu.step.result = .error fault) :
    k.turn.steps = k.steps := by
  rw [turn_of_error hfault, steps_attempted]

/-- A turn ends the run if its step finished the program. -/
theorem state_turn_of_ok (hrunning : k.state = .running) (hresult : k.cpu.step.result = .ok r) :
    k.turn.state = if r = .finished then .finished else .running := by
  rw [turn_of_ok hresult, state_pace]
  exact k.advanced.state_settle r (k.state_attempted.trans hrunning)

/-- A turn that fails leaves the run running. -/
theorem state_turn_of_error (hrunning : k.state = .running)
    (hfault : k.cpu.step.result = .error fault) : k.turn.state = .running := by
  rw [turn_of_error hfault, state_attempted, hrunning]

/-- No turn leaves the run paused, since a pause is over when the turn is. -/
theorem state_turn_ne_paused (hrunning : k.state = .running) : k.turn.state ≠ .paused := by
  cases hresult : k.cpu.step.result with
  | ok r =>
    rw [state_turn_of_ok hrunning hresult]
    split <;> simp
  | error fault =>
    rw [state_turn_of_error hrunning hresult]
    simp

end Turn

/-- The controllers from which a run makes its turns, in order. Only the last of them can fail. -/
def course : (limit : Nat) → Controller → List Controller
  | 0, _ => []
  | limit + 1, k =>
    if k.state = .finished then []
    else
      match k.cpu.step.result with
      | .ok _ => k :: course limit k.turn
      | .error _ => [k]

/-- How a run goes: within a bound, a controller makes the turns of a course and comes back. -/
inductive Runs : Nat → Controller → List Controller → Controller × Except Fault RunOutcome → Prop
  /-- The run has ended before. -/
  | finished {limit : Nat} {k : Controller} (hfinished : k.state = .finished) :
    Runs limit k [] (k, .ok (.finished k.steps))
  /-- The bound is reached. -/
  | atLimit {k : Controller} (hrunning : k.state = .running) :
    Runs 0 k [] (k, .ok (.stepLimit k.steps))
  /-- The step fails. -/
  | failed {limit : Nat} {k : Controller} (hrunning : k.state = .running) {fault : Fault}
    (hfault : k.cpu.step.result = .error fault) : Runs (limit + 1) k [k] (k.turn, .error fault)
  /-- The step succeeds, and the run goes on. -/
  | turn {limit : Nat} {k : Controller} (hrunning : k.state = .running) {r : StepResult}
    (hresult : k.cpu.step.result = .ok r) {later : List Controller}
    {out : Controller × Except Fault RunOutcome} (hlater : Runs limit k.turn later out) :
    Runs (limit + 1) k (k :: later) out

/-- Every run goes one of these ways. -/
theorem runs_loop {k : Controller} (hstate : k.state ≠ .paused) (limit : Nat) :
    Runs limit k (k.course limit) (k.loop limit) := by
  induction limit generalizing k with
  | zero =>
    cases hrunning : k.state with
    | running =>
      rw [course, loop, hrunning, if_neg (by decide)]
      exact .atLimit hrunning
    | paused => exact absurd hrunning hstate
    | finished =>
      rw [course, loop_of_finished k hrunning]
      exact .finished hrunning
  | succ limit ih =>
    cases hrunning : k.state with
    | running =>
      rw [course, hrunning, if_neg (by decide)]
      cases hresult : k.cpu.step.result with
      | ok r =>
        rw [loop_of_ok hrunning (pace_stepOnce_of_ok hresult), ← turn_of_ok hresult]
        exact .turn hrunning hresult (ih (state_turn_ne_paused hrunning))
      | error fault =>
        rw [loop_of_error hrunning (pace_stepOnce_of_error hresult), ← turn_of_error hresult]
        exact .failed hrunning hresult
    | paused => exact absurd hrunning hstate
    | finished =>
      rw [course, hrunning, if_pos rfl, loop_of_finished k hrunning]
      exact .finished hrunning

/-- A run that was not left paused begins with its loop. -/
theorem runFor_of_ne_paused {k : Controller} (hstate : k.state ≠ .paused) (limit : Nat) :
    k.runFor limit = k.loop limit := by
  unfold runFor
  rw [if_neg hstate]

/-- A run that was not left paused goes one of the ways of a run. -/
theorem runs_runFor {k : Controller} (hstate : k.state ≠ .paused) (limit : Nat) :
    Runs limit k (k.course limit) (k.runFor limit) := by
  rw [runFor_of_ne_paused hstate]
  exact runs_loop hstate limit

namespace Runs

variable {limit : Nat} {k : Controller} {course : List Controller}
  {out : Controller × Except Fault RunOutcome}

/-- No run comes back paused. -/
theorem state_ne_paused (h : Runs limit k course out) : out.1.state ≠ .paused := by
  induction h with
  | finished hfinished => simp [hfinished]
  | atLimit hrunning => simp [hrunning]
  | failed hrunning hfault => exact state_turn_ne_paused hrunning
  | turn _ _ _ ih => exact ih

/-- Where the run has ended, no turn is made. -/
theorem of_finished (h : Runs limit k course out) (hfinished : k.state = .finished) :
    course = [] ∧ out.1 = k := by
  cases h with
  | finished => exact ⟨rfl, rfl⟩
  | atLimit hrunning | failed hrunning | turn hrunning =>
    rw [hrunning] at hfinished
    cases hfinished

/-- If the first step finds or makes the program ended, one turn is made. -/
theorem of_ending (h : Runs limit k course out) (hlimit : 0 < limit) (hrunning : k.state = .running)
    (hending : k.cpu.step.result = .ok .finished) : course = [k] ∧ out.1 = k.turn := by
  have hturn : k.turn.state = .finished := state_turn_of_ok hrunning hending
  cases h with
  | finished hfinished =>
    rw [hrunning] at hfinished
    cases hfinished
  | atLimit => exact absurd hlimit (Nat.lt_irrefl 0)
  | failed _ hfault =>
    rw [hending] at hfault
    cases hfault
  | turn _ _ hlater =>
    obtain ⟨hlater, hout⟩ := hlater.of_finished hturn
    exact ⟨by rw [hlater], hout⟩

/-- A run that came back and is taken up again is one run. -/
theorem loop_add (h : Runs limit k course out) {outcome : RunOutcome} (hout : out.2 = .ok outcome)
    (more : Nat) : out.1.loop more = k.loop (limit + more) := by
  induction h with
  | finished hfinished => rw [loop_of_finished _ hfinished, loop_of_finished _ hfinished]
  | atLimit => rw [Nat.zero_add]
  | failed => cases hout
  | @turn limit k hrunning r hresult later out _ ih =>
    rw [ih hout, Nat.succ_add, loop_of_ok hrunning (pace_stepOnce_of_ok hresult),
      turn_of_ok hresult]

end Runs

/-- Interrupting a run cannot be observed. If a run within a bound comes back without a fault, then
taking it up again gives the same controller (processor, state, count of steps, mode, commands that
are left, messages, counters and pacing) and the same result as one run within both bounds,
wherever the bound stands: before the first step, after the last or in between. -/
theorem runFor_add (k : Controller) (n m : Nat) (outcome : RunOutcome)
    (houtcome : (k.runFor n).2 = .ok outcome) : (k.runFor n).1.runFor m = k.runFor (n + m) := by
  let resumed := if k.state = .paused then k.pause else k
  have hstate : resumed.state ≠ .paused := by
    by_cases hpaused : k.state = .paused
    · simp [resumed, hpaused, pause]
    · simp [resumed, hpaused]
  have hruns : Runs n resumed (resumed.course n) (k.runFor n) := runs_loop hstate n
  rw [runFor_of_ne_paused hruns.state_ne_paused, hruns.loop_add houtcome]
  rfl

/-- A processor whose program asks for a pause and then ends. -/
def breakpointed : Cpu where
  memory := Memory.zero.write 0 0x03

/-- Its first step asks for a pause. -/
theorem step_breakpointed : breakpointed.step.result = .ok .pause := by
  have hopcode : breakpointed.opcode = 0x03 := by
    simp [Cpu.opcode, breakpointed, Memory.read_write]
  have hd : breakpointed.descriptor? = some (.single 0x03 .dbp .implied 1) := by
    rw [Cpu.descriptor?, hopcode]
    decide +kernel
  rw [(Cpu.StepsTo.executed rfl _ hd .pause rfl _ rfl).step_eq]
  rfl

/-- A controller that is interrupted right after a pause in which single-step mode was asked for. -/
def interrupted : Controller where
  cpu := breakpointed
  source := .ofScript ["regs", "step", "c"]

/-- What is left of the run after the first step makes the whole run. -/
theorem runFor_add_interrupted :
    (interrupted.runFor 1).2 = .ok (.stepLimit 1) ∧
      (interrupted.runFor 1).1.runFor 2 = interrupted.runFor 3 := by
  have hresult : interrupted.cpu.step.result = .ok .pause := step_breakpointed
  have houtcome : (interrupted.runFor 1).2 = .ok (.stepLimit 1) := by
    rw [runFor_of_ne_paused (by decide), loop_of_ok rfl (pace_stepOnce_of_ok hresult),
      ← turn_of_ok hresult, loop, state_turn_of_ok rfl hresult, steps_turn_of_ok hresult]
    rfl
  exact ⟨houtcome, runFor_add interrupted 1 2 _ houtcome⟩

end Core65C02.Controller
