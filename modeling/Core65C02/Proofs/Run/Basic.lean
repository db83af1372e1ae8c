import Core65C02.Proofs.Step
import Core65C02.Run.Controller

/-!
# The parts of a run

What each part of the loop does to the processor, the count of steps and the state of the run.
Tracing, counting, pacing and pausing touch none of the first two; only the end of the program
changes the last.
-/

namespace Core65C02.Controller

variable (k : Controller)

/-- Pacing leaves the processor alone. -/
@[simp] theorem cpu_pace : k.pace.cpu = k.cpu := by
  unfold pace
  split <;> rfl

/-- Pacing leaves the count of steps alone. -/
@[simp] theorem steps_pace : k.pace.steps = k.steps := by
  unfold pace
  split <;> rfl

/-- Pacing leaves the state of the run alone. -/
@[simp] theorem state_pace : k.pace.state = k.state := by
  unfold pace
  split <;> rfl

/-- The step of the loop is the step of the processor, and it counts if it succeeds. -/
theorem stepOnce_eq :
    k.stepOnce.1.cpu = k.cpu.step.cpu ∧ k.stepOnce.2 = k.cpu.step.result ∧
      k.stepOnce.1.state = k.state ∧
      k.stepOnce.1.steps = k.steps + (if k.cpu.step.result.isOk then 1 else 0) := by
  unfold stepOnce
  cases hresult : k.cpu.step.result <;> simp [hresult, Except.isOk, Except.toBool]

/-- A pause leaves the processor alone. -/
@[simp] theorem cpu_pauseFor (reason : PauseReason) : (k.pauseFor reason).cpu = k.cpu := rfl

/-- A pause leaves the count of steps alone. -/
@[simp] theorem steps_pauseFor (reason : PauseReason) : (k.pauseFor reason).steps = k.steps := rfl

/-- A pause is over when the run goes on. -/
@[simp] theorem state_pauseFor (reason : PauseReason) : (k.pauseFor reason).state = .running := rfl

/-- What follows a step leaves the processor alone. -/
@[simp] theorem cpu_settle (r : StepResult) : (k.settle r).cpu = k.cpu := by
  cases r <;> cases hsingle : k.singleStep <;> simp [settle, finish, hsingle]

/-- What follows a step leaves the count of steps alone. -/
@[simp] theorem steps_settle (r : StepResult) : (k.settle r).steps = k.steps := by
  cases r <;> cases hsingle : k.singleStep <;> simp [settle, finish, hsingle]

/-- Only the end of the program ends the run. -/
theorem state_settle (r : StepResult) (hrunning : k.state = .running) :
    (k.settle r).state = if r = .finished then .finished else .running := by
  cases r <;> cases hsingle : k.singleStep <;> simp [settle, finish, hsingle, hrunning]

/-- A run that has ended is over at once. -/
theorem loop_of_finished (hfinished : k.state = .finished) (limit : Nat) :
    k.loop limit = (k, .ok (.finished k.steps)) := by
  cases limit <;> simp [loop, hfinished]

/-- The loop stops at a step that fails. -/
theorem loop_of_error {k next : Controller} {fault : Fault} (hrunning : k.state = .running)
    (hnext : k.pace.stepOnce = (next, .error fault)) (limit : Nat) :
    k.loop (limit + 1) = (next, .error fault) := by
  rw [loop, if_neg (by simp [hrunning]), hnext]

/-- After a step that succeeds, and what follows it, the loop goes on. -/
theorem loop_of_ok {k next : Controller} {r : StepResult} (hrunning : k.state = .running)
    (hnext : k.pace.stepOnce = (next, .ok r)) (limit : Nat) :
    k.loop (limit + 1) = (next.settle r).pace.loop limit := by
  rw [loop, if_neg (by simp [hrunning]), hnext]

end Core65C02.Controller
