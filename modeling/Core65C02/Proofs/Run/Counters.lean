import Core65C02.Proofs.Fatal
import Core65C02.Proofs.Run.Calls
import Core65C02.Proofs.Standard

/-!
# Counters

The counters of a run are compared with what the run did: the instructions that its steps executed,
the cycles that its processor counted, and the pauses that it made. A run takes a step to have
executed an instruction if the record of the last instruction bears the address at which PC was
before the step. The main statement says when this is right: always, unless the run begins with a
halted processor whose PC was put back to the instruction that it executed last. That instruction is
then counted once more, although nothing is executed.
-/

namespace Core65C02

namespace Cpu

/-- The next step executes an instruction with an opcode. -/
def executes (c : Cpu) (opcode : UInt8) : Bool :=
  !c.halted && c.opcode == opcode && c.step.result.isOk

/-- The program has ended, and PC is back at the instruction that was executed last. -/
def IsRewound (c : Cpu) : Prop := c.halted = true ∧ ∃ i, c.last = some i ∧ i.address = c.pc

/-- A step that executes an instruction records it and counts its cycles. -/
theorem exists_last_of_step_ok {c : Cpu} {r : StepResult} (hhalted : c.halted = false)
    (hresult : c.step.result = .ok r) :
    ∃ i, c.step.cpu.last = some i ∧ i.address = c.pc ∧ i.descriptor.opcode = c.opcode ∧
      c.step.cpu.totalCycles = c.totalCycles + i.cycles := by
  have hstep := c.stepsTo_step
  generalize c.step = out at hstep hresult ⊢
  cases hstep with
  | halted hhalted' =>
    rw [hhalted] at hhalted'
    cases hhalted'
  | undefined | unassigned | refused => cases hresult
  | executed _ d hd op _ o _ =>
    rw [executed_eq]
    refine ⟨⟨d, c.pc, op.extraCycles d o c⟩, ?_, rfl, (descriptor?_mem hd).2, rfl⟩
    exact (perform_frame op d o _).1

end Cpu

namespace Metrics

/-- An instruction that is recorded is counted under its opcode. -/
theorem count_recordInstruction (m : Metrics) (i : Instruction) (opcode : UInt8) :
    (m.recordInstruction i).count opcode =
      m.count opcode + if i.descriptor.opcode = opcode then 1 else 0 := by
  unfold recordInstruction count
  rw [Vector.getElem_set]
  by_cases hopcode : i.descriptor.opcode = opcode
  · simp [hopcode]
  · have hne : i.descriptor.opcode.toNat ≠ opcode.toNat := fun h => hopcode (UInt8.toNat_inj.mp h)
    simp [hopcode, hne]

/-- The counters after a turn in which an instruction and a pause may be counted. -/
def afterTurn (m : Metrics) (instruction? : Option Instruction) (pause? : Option PauseReason) :
    Metrics :=
  let counted := instruction?.elim m m.recordInstruction
  pause?.elim counted counted.recordPause

variable (m : Metrics) (instruction? : Option Instruction) (pause? : Option PauseReason)

/-- A turn counts its instruction under the opcode, if it counts one. -/
theorem count_afterTurn (opcode : UInt8) :
    (m.afterTurn instruction? pause?).count opcode = m.count opcode +
      instruction?.elim 0 fun i => if i.descriptor.opcode = opcode then 1 else 0 := by
  have hpause (m : Metrics) (reason : PauseReason) :
      (m.recordPause reason).count opcode = m.count opcode := by
    cases reason <;> rfl
  have hcounted : (instruction?.elim m m.recordInstruction).count opcode = m.count opcode +
      instruction?.elim 0 fun i => if i.descriptor.opcode = opcode then 1 else 0 := by
    cases instruction? with
    | none => rfl
    | some i => exact m.count_recordInstruction i opcode
  rw [← hcounted]
  cases pause? with
  | none => rfl
  | some reason => exact hpause _ reason

/-- A turn adds the cycles of its instruction, if it counts one. -/
theorem cycles_afterTurn :
    (m.afterTurn instruction? pause?).cycles =
      m.cycles + instruction?.elim 0 Instruction.cycles := by
  rcases instruction? with _ | i <;> rcases pause? with _ | _ | _ <;> rfl

/-- A turn counts its pause under the reason, if it has one. -/
theorem pauses_afterTurn (reason : PauseReason) :
    (m.afterTurn instruction? pause?).pauses reason =
      m.pauses reason + if pause? = some reason then 1 else 0 := by
  rcases instruction? with _ | i <;> rcases pause? with _ | _ | _ <;> cases reason <;> rfl

end Metrics

namespace Controller

/-- The instruction that the next turn counts: the one that was recorded last, if it was fetched
from where PC is before the step. -/
def tallied? (k : Controller) : Option Instruction :=
  k.cpu.step.cpu.last.filter fun i => i.address = k.cpu.pc

/-- Why a pause follows the next step, if one follows. -/
def nextPause? (k : Controller) : Option PauseReason :=
  match k.cpu.step.result with
  | .ok r => k.pauseReason? r
  | .error _ => none

/-- The last instruction is counted if it was fetched where PC was. -/
theorem tally_some (m : Metrics) (pc : UInt16) (last : Option Instruction) :
    tally (some m) pc last =
      some ((last.filter fun i => i.address = pc).elim m m.recordInstruction) := by
  cases last with
  | none => rfl
  | some i => by_cases haddress : i.address = pc <;> simp [tally, Option.filter, haddress]

/-- What follows a step counts the pause that is due. -/
theorem metrics_settle (k : Controller) (r : StepResult) :
    (k.settle r).metrics =
      k.metrics.map fun (m : Metrics) => (k.pauseReason? r).elim m m.recordPause := by
  cases r <;> cases hsingle : k.singleStep <;>
    simp [settle, pauseFor, pause, finish, pauseReason?, hsingle]

/-- A turn that succeeds counts the last instruction, if that comes from where PC was, and the pause
that is due. -/
theorem metrics_turn_of_ok {k : Controller} {m : Metrics} {r : StepResult}
    (hmetrics : k.metrics = some m) (hresult : k.cpu.step.result = .ok r) :
    k.turn.metrics = some (m.afterTurn k.tallied? k.nextPause?) := by
  have hadvanced : k.advanced.metrics = some (k.tallied?.elim m m.recordInstruction) := by
    rw [tallied?, ← tally_some, ← hmetrics]
    rfl
  have hreason : k.advanced.pauseReason? r = k.nextPause? := by
    have hsingle : k.advanced.singleStep = k.singleStep := k.singleStep_attempted
    rw [nextPause?, hresult]
    unfold pauseReason?
    rw [hsingle]
  rw [turn_of_ok hresult, metrics_pace, metrics_settle, hadvanced, hreason]
  rfl

/-- A turn that fails counts nothing. -/
theorem metrics_turn_of_error {k : Controller} {fault : Fault}
    (hfault : k.cpu.step.result = .error fault) : k.turn.metrics = k.metrics := by
  rw [turn_of_error hfault, metrics_attempted]

/-- The turn of a processor that is not halted counts the instruction that its step executes. -/
theorem tallied?_of_not_halted {k : Controller} {r : StepResult} (hhalted : k.cpu.halted = false)
    (hresult : k.cpu.step.result = .ok r) :
    ∃ i, k.tallied? = some i ∧ i.descriptor.opcode = k.cpu.opcode ∧
      k.cpu.step.cpu.totalCycles = k.cpu.totalCycles + i.cycles := by
  obtain ⟨i, hlast, haddress, hopcode, hcycles⟩ := Cpu.exists_last_of_step_ok hhalted hresult
  refine ⟨i, ?_, hopcode, hcycles⟩
  simp [tallied?, hlast, haddress, Option.filter]

/-- The turn of a halted processor counts the instruction that was executed last, if PC is back at
it. -/
theorem tallied?_of_halted {k : Controller} (hhalted : k.cpu.halted = true) :
    k.tallied? = k.cpu.last.filter fun i => i.address = k.cpu.pc := by
  rw [tallied?, Cpu.step_of_halted hhalted]

/-- Turns count exactly what they do: the instructions that their steps execute, by opcode, and the
cycles of the processor. -/
structure CountsExactly (m m' : Metrics) (turns : List Controller) (c c' : Cpu) : Prop where
  /-- Each opcode is counted once for each step that executes it. -/
  count_eq (opcode : UInt8) :
    m'.count opcode = m.count opcode + turns.countP fun k => k.cpu.executes opcode
  /-- The cycles that are counted are those that the processor has spent. -/
  cycles_eq : m'.cycles + c.totalCycles = m.cycles + c'.totalCycles

namespace CountsExactly

/-- Where no turn is made, nothing is to be counted. -/
theorem refl (m : Metrics) (c : Cpu) : CountsExactly m m [] c c := ⟨fun _ => rfl, rfl⟩

/-- What counts exactly turn by turn counts exactly. -/
theorem cons {m m' m'' : Metrics} {k : Controller} {later : List Controller} {c c' c'' : Cpu}
    (h : CountsExactly m m' [k] c c') (hlater : CountsExactly m' m'' later c' c'') :
    CountsExactly m m'' (k :: later) c c'' where
  count_eq opcode := by
    rw [hlater.count_eq, h.count_eq, Nat.add_assoc, ← List.countP_append]
    rfl
  cycles_eq := by
    have hcycles := h.cycles_eq
    have hcyclesLater := hlater.cycles_eq
    omega

end CountsExactly

/-- A turn whose step succeeds counts exactly, unless PC was put back to the instruction that ended
the program. -/
theorem countsExactly_turn_of_ok {k : Controller} {r : StepResult} (m : Metrics)
    (hrewound : ¬ k.cpu.IsRewound) (hresult : k.cpu.step.result = .ok r) :
    CountsExactly m (m.afterTurn k.tallied? k.nextPause?) [k] k.cpu k.turn.cpu := by
  rw [cpu_turn]
  cases hhalted : k.cpu.halted with
  | false =>
    obtain ⟨i, htallied, hopcode, hcycles⟩ := tallied?_of_not_halted hhalted hresult
    have hexecutes (opcode : UInt8) : k.cpu.executes opcode = (k.cpu.opcode == opcode) := by
      simp [Cpu.executes, hhalted, hresult, Except.isOk, Except.toBool]
    constructor
    · intro opcode
      simp [Metrics.count_afterTurn, htallied, hopcode, List.countP_singleton, hexecutes]
    · rw [Metrics.cycles_afterTurn, htallied, hcycles, Option.elim]
      omega
  | true =>
    have hnone : k.tallied? = none := by
      rw [tallied?_of_halted hhalted, Option.filter_eq_none_iff]
      intro i hlast haddress
      exact hrewound ⟨hhalted, i, hlast, of_decide_eq_true haddress⟩
    constructor
    · intro opcode
      simp [Metrics.count_afterTurn, hnone, Cpu.executes, hhalted]
    · rw [Metrics.cycles_afterTurn, hnone, Cpu.step_of_halted hhalted]
      rfl

/-- A turn whose step fails counts nothing, and does nothing. -/
theorem countsExactly_turn_of_error {k : Controller} {fault : Fault} (m : Metrics)
    (hfault : k.cpu.step.result = .error fault) :
    CountsExactly m m [k] k.cpu k.turn.cpu := by
  rw [cpu_turn]
  constructor
  · intro opcode
    simp [Cpu.executes, hfault, Except.isOk, Except.toBool]
  · have halike := (Cpu.alike_of_step_error hfault).1
    unfold Cpu.Alike at halike
    rw [halike]

/-- A turn of a processor whose PC was put back counts an instruction that nobody executes. -/
theorem not_countsExactly_turn {k : Controller} (m : Metrics) (hrewound : k.cpu.IsRewound) :
    ¬ CountsExactly m (m.afterTurn k.tallied? k.nextPause?) [k] k.cpu k.turn.cpu := by
  obtain ⟨hhalted, i, hlast, haddress⟩ := hrewound
  intro hexact
  have hcount := hexact.count_eq i.descriptor.opcode
  have htallied : k.tallied? = some i := by
    rw [tallied?_of_halted hhalted, hlast]
    simp [Option.filter, haddress]
  simp [Metrics.count_afterTurn, htallied, Cpu.executes, hhalted] at hcount

namespace Runs

variable {limit : Nat} {k : Controller} {course : List Controller}
  {out : Controller × Except Fault RunOutcome} {m : Metrics}

/-- A run with counters counts every pause that it makes, for its reason. -/
theorem pauses_eq (h : Runs limit k course out) (hmetrics : k.metrics = some m) :
    ∃ m', out.1.metrics = some m' ∧ ∀ reason, m'.pauses reason =
      m.pauses reason + course.countP fun k => k.nextPause? = some reason := by
  induction h generalizing m with
  | finished | atLimit => exact ⟨m, hmetrics, fun _ => rfl⟩
  | @failed limit k hrunning fault hfault =>
    refine ⟨m, (metrics_turn_of_error hfault).trans hmetrics, fun reason => ?_⟩
    have hnone : k.nextPause? = none := by rw [nextPause?, hfault]
    simp [hnone]
  | turn _ hresult _ ih =>
    obtain ⟨m', hmetrics', hpauses⟩ := ih (metrics_turn_of_ok hmetrics hresult)
    refine ⟨m', hmetrics', fun reason => ?_⟩
    rw [hpauses, Metrics.pauses_afterTurn, List.countP_cons]
    simp only [decide_eq_true_eq]
    omega

/-- A run counts exactly what it does, unless it begins with PC put back to the instruction that
ended the program. A run that goes on after a turn cannot come to stand there by itself, for the
step that ends the program ends the run. -/
theorem countsExactly (h : Runs limit k course out) {m' : Metrics} (hmetrics : k.metrics = some m)
    (hmetrics' : out.1.metrics = some m')
    (hnot : ¬ (0 < limit ∧ k.state = .running ∧ k.cpu.IsRewound)) :
    CountsExactly m m' course k.cpu out.1.cpu := by
  induction h generalizing m with
  | finished | atLimit =>
    obtain rfl : m = m' := Option.some.inj (hmetrics.symm.trans hmetrics')
    exact .refl m _
  | failed hrunning hfault =>
    rw [metrics_turn_of_error hfault] at hmetrics'
    obtain rfl : m = m' := Option.some.inj (hmetrics.symm.trans hmetrics')
    exact countsExactly_turn_of_error m hfault
  | @turn limit k hrunning r hresult later out hlater ih =>
    refine (countsExactly_turn_of_ok m (fun h => hnot ⟨limit.succ_pos, hrunning, h⟩) hresult).cons
      (ih (metrics_turn_of_ok hmetrics hresult) hmetrics' ?_)
    rintro ⟨-, hrunning', hhalted, -⟩
    rw [cpu_turn, ← Cpu.step_result_eq_finished_iff, hresult] at hhalted
    cases hhalted
    rw [state_turn_of_ok hrunning hresult] at hrunning'
    cases hrunning'

/-- A run that begins with PC put back makes one turn, and counts it wrongly. -/
theorem not_countsExactly (h : Runs limit k course out) {m' : Metrics}
    (hmetrics : k.metrics = some m) (hmetrics' : out.1.metrics = some m') (hlimit : 0 < limit)
    (hrunning : k.state = .running) (hrewound : k.cpu.IsRewound) :
    ¬ CountsExactly m m' course k.cpu out.1.cpu := by
  have hending : k.cpu.step.result = .ok .finished := by rw [Cpu.step_of_halted hrewound.1]
  obtain ⟨rfl, hout⟩ := h.of_ending hlimit hrunning hending
  rw [hout, metrics_turn_of_ok hmetrics hending] at hmetrics'
  obtain rfl := Option.some.inj hmetrics'
  rw [hout]
  exact not_countsExactly_turn m hrewound

end Runs

/-- A call leaves the counters of a controller in place. -/
theorem exists_metrics_perform {k : Controller} (hstate : k.state ≠ .paused) {m : Metrics}
    (hmetrics : k.metrics = some m) (call : Call) : ∃ m', (k.perform call).metrics = some m' := by
  cases call with
  | setSingleStep | edit => exact ⟨m, hmetrics⟩
  | runUntilFinish =>
    obtain ⟨m', hmetrics', -⟩ := (runs_runFor hstate stepBound).pauses_eq hmetrics
    exact ⟨m', hmetrics'⟩
  | runFor limit =>
    obtain ⟨m', hmetrics', -⟩ := (runs_runFor hstate limit).pauses_eq hmetrics
    exact ⟨m', hmetrics'⟩

/-- Counters that are kept are kept on through all calls. -/
theorem exists_metrics_performAll {k : Controller} (hstate : k.state ≠ .paused) {m : Metrics}
    (hmetrics : k.metrics = some m) (calls : List Call) :
    ∃ m', (k.performAll calls).metrics = some m' := by
  induction calls generalizing k m with
  | nil => exact ⟨m, hmetrics⟩
  | cons call calls ih =>
    obtain ⟨m', hmetrics'⟩ := exists_metrics_perform hstate hmetrics call
    exact ih (state_and_steps_perform hstate call).1 hmetrics'

/-- After any calls, a run with counters counts every pause that it makes. It counts exactly the
instructions that it executes and the cycles that pass, unless it has a step to make, the program
has ended and PC was put back to the instruction that was executed last. -/
theorem runFor_countsExactly_iff (new : Controller) (hstate : new.state ≠ .paused) (m : Metrics)
    (hmetrics : new.metrics = some m) (calls : List Call) (limit : Nat) :
    let k := new.performAll calls
    let k' := (k.runFor limit).1
    ∃ before after, k.metrics = some before ∧ k'.metrics = some after ∧
      (∀ reason, after.pauses reason = before.pauses reason +
        (k.course limit).countP fun j => j.nextPause? = some reason) ∧
      (CountsExactly before after (k.course limit) k.cpu k'.cpu ↔
        ¬ (0 < limit ∧ k.state = .running ∧ k.cpu.IsRewound)) := by
  intro k k'
  have hruns : Runs limit k (k.course limit) (k.runFor limit) :=
    runs_runFor (state_and_steps_performAll hstate calls).1 limit
  obtain ⟨before, hbefore⟩ := exists_metrics_performAll hstate hmetrics calls
  obtain ⟨after, hafter, hpauses⟩ := hruns.pauses_eq hbefore
  refine ⟨before, after, hbefore, hafter, hpauses, ?_, hruns.countsExactly hbefore hafter⟩
  rintro hexact ⟨hlimit, hrunning, hrewound⟩
  exact hruns.not_countsExactly hbefore hafter hlimit hrunning hrewound hexact

/-- A new controller that keeps counters. -/
def counting : Controller where
  cpu := {}
  metrics := some {}

/-- The processor makes a step outside of any run, and PC is put back to where it was. -/
def rewind : Call := .edit fun (cpu, log) => ({ cpu.step.cpu with pc := cpu.pc }, log)

/-- The program of zeros ends at once, so PC is then back at the instruction that ended it. -/
theorem isRewound_counting :
    (counting.performAll [rewind]).cpu.IsRewound ∧
      (counting.performAll [rewind]).cpu.last = some ⟨.single 0x00 .brk .implied 7, 0, 0⟩ := by
  have hd : counting.cpu.descriptor? = some (.single 0x00 .brk .implied 7) := Cpu.descriptor?_zeros
  have hcpu : (counting.performAll [rewind]).cpu =
      { counting.cpu.step.cpu with pc := counting.cpu.pc } := by
    simp only [performAll, List.foldl, perform, rewind]
  rw [hcpu, (Cpu.StepsTo.executed rfl _ hd .halt rfl _ rfl).step_eq, Cpu.executed_eq]
  exact ⟨⟨rfl, _, rfl, rfl⟩, rfl⟩

/-- The next run counts the instruction that ended the program once more, so that its counters are
not exact. -/
theorem runFor_countsExactly_iff_rewind :
    counting.state ≠ .paused ∧ counting.metrics = some {} ∧
      let k := counting.performAll [rewind]
      ∃ before after, k.metrics = some before ∧ (k.runFor 1).1.metrics = some after ∧
        ¬ CountsExactly before after (k.course 1) k.cpu (k.runFor 1).1.cpu := by
  have hstate : counting.state ≠ .paused := by decide
  obtain ⟨before, after, hbefore, hafter, _, hiff⟩ :=
    runFor_countsExactly_iff counting hstate {} rfl [rewind] 1
  refine ⟨hstate, rfl, before, after, hbefore, hafter, fun hexact => ?_⟩
  exact hiff.mp hexact ⟨Nat.one_pos, rfl, isRewound_counting.1⟩

/-- A run that begins with PC put back executes no instruction and lets no cycle pass, but it counts
one more of the instructions that ended the program, with its cycles. -/
theorem runFor_miscounts :
    let k := counting.performAll [rewind]
    let k' := (k.runFor 1).1
    (∀ opcode, (k.course 1).countP (fun j => j.cpu.executes opcode) = 0) ∧
      k'.cpu.totalCycles = k.cpu.totalCycles ∧
      ∃ before after, k.metrics = some before ∧ k'.metrics = some after ∧
        after.count 0x00 = before.count 0x00 + 1 ∧ after.cycles = before.cycles + 7 := by
  intro k k'
  obtain ⟨hrewound, hlast⟩ : k.cpu.IsRewound ∧ k.cpu.last = some _ := isRewound_counting
  have hending : k.cpu.step.result = .ok .finished := by rw [Cpu.step_of_halted hrewound.1]
  obtain ⟨hcourse, hk'⟩ : k.course 1 = [k] ∧ k' = k.turn :=
    (runs_runFor (by decide) 1).of_ending Nat.one_pos rfl hending
  have htallied : k.tallied? = some ⟨.single 0x00 .brk .implied 7, 0, 0⟩ := by
    rw [tallied?_of_halted hrewound.1, hlast]
    rfl
  rw [hk', hcourse, cpu_turn]
  refine ⟨fun opcode => ?_, ?_, {}, _, rfl, metrics_turn_of_ok rfl hending, ?_, ?_⟩
  · simp [Cpu.executes, hrewound.1]
  · rw [Cpu.step_of_halted hrewound.1]
  · rw [Metrics.count_afterTurn, htallied]
    rfl
  · rw [Metrics.cycles_afterTurn, htallied]
    rfl

end Controller

end Core65C02
