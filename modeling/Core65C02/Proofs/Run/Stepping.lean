import Core65C02.Proofs.Run.Basic

/-!
# Runs are repeated steps

A bounded run is compared with bare stepping of its processor. The main statement is that a run
makes the steps that bare stepping makes within the bound and nothing else happens to the
processor, so what is there for debugging (commands, single-step mode, messages, counters, pacing)
cannot be told from the result.
-/

namespace Core65C02

/-- How bare stepping within a bound ends. -/
inductive Ending
  /-- The bound was reached. -/
  | atLimit
  /-- The last step was that of a program that has ended. -/
  | finished
  /-- The last step failed. -/
  | failed (fault : Fault)

namespace Ending

/-- How many of the calls were successful: all but a failing one, which is the last. -/
def successes (calls : Nat) : Ending → Nat
  | atLimit | finished => calls
  | failed _ => calls - 1

/-- How a run reports an ending when it has made `steps` steps so far. -/
def outcome (steps : Nat) : Ending → Except Fault RunOutcome
  | atLimit => .ok (.stepLimit steps)
  | finished => .ok (.finished steps)
  | failed fault => .error fault

end Ending

namespace Cpu

/-- The step after `i` others neither fails nor ends the program. -/
def GoesOn (c : Cpu) (i : Nat) : Prop :=
  ∃ r, (c.after i).step.result = .ok r ∧ r ≠ .finished

/-- Within `limit` calls, bare stepping ends after `calls` of them: at the first step that fails or
finds the program ended, or at the limit if there is none before. -/
inductive Stops (c : Cpu) (limit : Nat) : Nat → Ending → Prop
  /-- Every step within the bound goes on. -/
  | atLimit (hbefore : ∀ i < limit, c.GoesOn i) : Stops c limit limit .atLimit
  /-- The first step that does not go on ends the program, or finds that it has ended. -/
  | finished (i : Nat) (hi : i < limit) (hbefore : ∀ j < i, c.GoesOn j)
    (hresult : (c.after i).step.result = .ok .finished) : Stops c limit (i + 1) .finished
  /-- The first step that does not go on fails. -/
  | failed (i : Nat) (hi : i < limit) (hbefore : ∀ j < i, c.GoesOn j) (fault : Fault)
    (hresult : (c.after i).step.result = .error fault) : Stops c limit (i + 1) (.failed fault)

/-- A step that ends the program does not go on. -/
theorem not_goesOn_of_finished {c : Cpu} {i : Nat}
    (hresult : (c.after i).step.result = .ok .finished) : ¬ c.GoesOn i := by
  rintro ⟨r, hr, hne⟩
  rw [hresult] at hr
  exact hne (Except.ok.inj hr).symm

/-- A step that fails does not go on. -/
theorem not_goesOn_of_failed {c : Cpu} {i : Nat} {fault : Fault}
    (hresult : (c.after i).step.result = .error fault) : ¬ c.GoesOn i := by
  rintro ⟨r, hr, _⟩
  rw [hresult] at hr
  cases hr

/-- The first step that does not go on is determined. -/
theorem first_unique {c : Cpu} {i j : Nat} (hi : ∀ m < i, c.GoesOn m) (hstopi : ¬ c.GoesOn i)
    (hj : ∀ m < j, c.GoesOn m) (hstopj : ¬ c.GoesOn j) : i = j := by
  rcases Nat.lt_trichotomy i j with hlt | heq | hlt
  · exact absurd (hj i hlt) hstopi
  · exact heq
  · exact absurd (hi j hlt) hstopj

/-- One more call before an ending is one more success. -/
theorem Stops.successes_succ {c : Cpu} {limit calls : Nat} {ending : Ending}
    (h : c.Stops limit calls ending) :
    ending.successes (calls + 1) = ending.successes calls + 1 := by
  cases h <;> rfl

/-- Bare stepping within a bound ends in one way only. -/
theorem Stops.unique {c : Cpu} {limit calls calls' : Nat} {ending ending' : Ending}
    (h : c.Stops limit calls ending) (h' : c.Stops limit calls' ending') :
    calls = calls' ∧ ending = ending' := by
  cases h with
  | atLimit hbefore =>
    cases h' with
    | atLimit => exact ⟨rfl, rfl⟩
    | finished i hi _ hresult => exact absurd (hbefore i hi) (not_goesOn_of_finished hresult)
    | failed i hi _ _ hresult => exact absurd (hbefore i hi) (not_goesOn_of_failed hresult)
  | finished i hi hbefore hresult =>
    have hstop := not_goesOn_of_finished hresult
    cases h' with
    | atLimit hbefore' => exact absurd (hbefore' i hi) hstop
    | finished j _ hbefore' hresult' =>
      obtain rfl := first_unique hbefore hstop hbefore' (not_goesOn_of_finished hresult')
      exact ⟨rfl, rfl⟩
    | failed j _ hbefore' fault hresult' =>
      obtain rfl := first_unique hbefore hstop hbefore' (not_goesOn_of_failed hresult')
      cases hresult.symm.trans hresult'
  | failed i hi hbefore fault hresult =>
    have hstop := not_goesOn_of_failed hresult
    cases h' with
    | atLimit hbefore' => exact absurd (hbefore' i hi) hstop
    | finished j _ hbefore' hresult' =>
      obtain rfl := first_unique hbefore hstop hbefore' (not_goesOn_of_finished hresult')
      cases hresult.symm.trans hresult'
    | failed j _ hbefore' fault' hresult' =>
      obtain rfl := first_unique hbefore hstop hbefore' (not_goesOn_of_failed hresult')
      cases hresult.symm.trans hresult'
      exact ⟨rfl, rfl⟩

/-- A step that goes on shifts the end of what follows by one. -/
theorem Stops.cons {c : Cpu} {limit calls : Nat} {ending : Ending} (hfirst : c.GoesOn 0)
    (h : c.step.cpu.Stops limit calls ending) : c.Stops (limit + 1) (calls + 1) ending := by
  have hcons {n : Nat} (hrest : ∀ i < n, c.step.cpu.GoesOn i) : ∀ i < n + 1, c.GoesOn i := by
    intro i hi
    cases i with
    | zero => exact hfirst
    | succ i => exact hrest i (by omega)
  cases h with
  | atLimit hbefore => exact .atLimit (hcons hbefore)
  | finished i hi hbefore hresult =>
    exact .finished (i + 1) (by omega) (hcons hbefore) hresult
  | failed i hi hbefore fault hresult =>
    exact .failed (i + 1) (by omega) (hcons hbefore) fault hresult

end Cpu

namespace Controller

/-- A run within a bound and bare stepping of its processor within the same bound end alike. -/
theorem loop_stops (k : Controller) (n : Nat) (hrunning : k.state = .running) :
    ∃ calls ending, k.cpu.Stops n calls ending ∧
      (k.loop n).1.cpu = k.cpu.after calls ∧
      (k.loop n).1.steps = k.steps + ending.successes calls ∧
      (k.loop n).2 = ending.outcome (k.loop n).1.steps := by
  induction n generalizing k with
  | zero =>
    refine ⟨0, .atLimit, .atLimit (by omega), rfl, rfl, ?_⟩
    simp [loop, hrunning, Ending.outcome]
  | succ n ih =>
    obtain ⟨hcpu, hresult, hstate, hsteps⟩ := k.pace.stepOnce_eq
    simp only [cpu_pace, steps_pace, state_pace] at hcpu hresult hstate hsteps
    rcases hnext : k.pace.stepOnce with ⟨next, fault | r⟩
    · rw [hnext] at hcpu hresult hsteps
      simp only [← hresult, Except.isOk, Except.toBool] at hsteps
      rw [loop_of_error hrunning hnext]
      refine ⟨1, .failed fault, ?_, hcpu, hsteps, rfl⟩
      exact .failed 0 (by omega) (by omega) fault hresult.symm
    · rw [hnext] at hcpu hresult hstate hsteps
      simp only [← hresult, Except.isOk, Except.toBool, if_true] at hsteps
      have hsettled := next.state_settle r (hstate.trans hrunning)
      rw [loop_of_ok hrunning hnext]
      by_cases hr : r = .finished
      · rw [if_pos hr] at hsettled
        rw [loop_of_finished _ (by simpa using hsettled)]
        rw [hr] at hresult
        refine ⟨1, .finished, .finished 0 (by omega) (by omega) hresult.symm, ?_, ?_, rfl⟩
        · rw [cpu_pace, cpu_settle]
          exact hcpu
        · rw [steps_pace, steps_settle]
          exact hsteps
      · rw [if_neg hr] at hsettled
        obtain ⟨calls, ending, hstops, hcpu', hsteps', houtcome⟩ :=
          ih (next.settle r).pace (by simpa using hsettled)
        rw [cpu_pace, cpu_settle] at hstops hcpu'
        rw [steps_pace, steps_settle] at hsteps'
        have hcpu : next.cpu = k.cpu.step.cpu := hcpu
        have hsteps : next.steps = k.steps + 1 := hsteps
        rw [hcpu] at hstops hcpu'
        refine ⟨calls + 1, ending, hstops.cons ⟨r, hresult.symm, hr⟩, hcpu', ?_, houtcome⟩
        rw [hsteps', hsteps, hstops.successes_succ]
        omega

/-- A bounded run makes the steps that bare stepping makes within the bound, counts the successful
ones and reports how they ended. So runs of equal processors with equal counts of steps come to
the same end, whatever their commands, their mode, their messages, their counters and their pacing
are. -/
theorem runFor_refines_steps (k : Controller) (n : Nat) (hrunning : k.state = .running) :
    (∃ calls ending, k.cpu.Stops n calls ending ∧
      (k.runFor n).1.cpu = k.cpu.after calls ∧
      (k.runFor n).1.steps = k.steps + ending.successes calls ∧
      (k.runFor n).2 = ending.outcome (k.steps + ending.successes calls)) ∧
    ∀ k' : Controller, k'.cpu = k.cpu → k'.steps = k.steps → k'.state = .running →
      (k'.runFor n).1.cpu = (k.runFor n).1.cpu ∧
      (k'.runFor n).1.steps = (k.runFor n).1.steps ∧ (k'.runFor n).2 = (k.runFor n).2 := by
  have hloop {k : Controller} (hrunning : k.state = .running) : k.runFor n = k.loop n := by
    unfold runFor
    rw [if_neg (by simp [hrunning])]
  rw [hloop hrunning]
  obtain ⟨calls, ending, hstops, hcpu, hsteps, houtcome⟩ := k.loop_stops n hrunning
  refine ⟨⟨calls, ending, hstops, hcpu, hsteps, by rw [houtcome, hsteps]⟩, ?_⟩
  intro k' hcpus hstepss hrunning'
  rw [hloop hrunning']
  obtain ⟨calls', ending', hstops', hcpu', hsteps', houtcome'⟩ := k'.loop_stops n hrunning'
  rw [hcpus] at hstops' hcpu'
  obtain ⟨rfl, rfl⟩ := hstops.unique hstops'
  rw [hcpu, hcpu', hsteps, hsteps', houtcome, houtcome', hsteps, hsteps', hstepss]
  exact ⟨rfl, rfl, rfl⟩

/-- A run in single-step mode of a processor whose next instruction ends the program. -/
def steppedBreak : Controller where
  cpu := {}
  source := .ofScript ["regs", "step"]
  singleStep := true

/-- A run of at most three steps ends after the first one, although there is a pause in between. -/
theorem runFor_steppedBreak :
    steppedBreak.state = .running ∧ (steppedBreak.runFor 3).2 = .ok (.finished 1) := by
  have hresult : (({} : Cpu).after 0).step.result = .ok .finished := by
    rw [Cpu.after]
    exact Cpu.step_zeros.1
  obtain ⟨⟨calls, ending, hstops, _, _, houtcome⟩, _⟩ := runFor_refines_steps steppedBreak 3 rfl
  obtain ⟨rfl, rfl⟩ := hstops.unique (.finished 0 (by decide) (by omega) hresult)
  exact ⟨rfl, houtcome⟩

end Controller

end Core65C02
