import Core65C02.Cpu.Step
import Core65C02.Run.Command
import Core65C02.Run.Metrics
import Core65C02.Text.Pad

/-!
# Runs

A controller steps a processor until its program has ended, a bound on the steps is reached or a
step fails. It pauses where the program asks for it and, in single-step mode, after every step; a
pause takes commands until the run is resumed. Running is cumulative: the count of steps goes on
from call to call, and a run that has ended stays so.
-/

namespace Core65C02

/-- Where a run stands. -/
inductive RunState
  | running | paused | finished
deriving DecidableEq

/-- How a bounded run came back, with the steps of the controller so far. -/
inductive RunOutcome
  /-- The program has ended. -/
  | finished (steps : Nat)
  /-- The bound was reached first. -/
  | stepLimit (steps : Nat)
deriving DecidableEq

/-- The steps of the controller when a run came back. -/
def RunOutcome.steps : RunOutcome → Nat
  | finished steps => steps
  | stepLimit steps => steps

/-- A processor with all that a run of it needs. -/
structure Controller where
  /-- The processor. -/
  cpu : Cpu
  /-- Where the commands of a pause come from. -/
  source : CommandSource := {}
  /-- Where the run stands. -/
  state : RunState := .running
  /-- Whether the run pauses after every step. -/
  singleStep : Bool := false
  /-- The successful steps so far. -/
  steps : Nat := 0
  /-- The cycles a second at which the run is paced, if it is. Pacing changes no result. -/
  clockHz : Option Nat := none
  /-- The cycles of the processor when pacing began. A paced run waits until the cycles since then
  have taken their time. -/
  paceOrigin : Option Nat := none
  /-- The counters, if any are kept. -/
  metrics : Option Metrics := none
  /-- The sink of all messages. -/
  log : Capture := {}

namespace Controller

instance : Inhabited Controller := ⟨{ cpu := {} }⟩

/-- Paces a run at a number of cycles a second. Zero and none mean full speed. -/
def withClockHz (c : Controller) (hz : Option Nat) : Controller :=
  { c with clockHz := hz.filter fun n => n != 0 }

/-- Whether a run is paced. -/
def isPaced (c : Controller) : Bool := c.clockHz.isSome

/-- The line that traces the step a processor is about to take: address, opcode, mnemonic and
registers. -/
def traceLine (cpu : Cpu) : String :=
  let opcode := cpu.memory.read cpu.pc
  let name := match OpcodeTable.standard.get? opcode with
    | some d => d.mnemonic.name
    | none => "???"
  Hex.address cpu.pc ++ "  " ++ Hex.byte opcode ++ "  " ++ Text.pad .left ' ' 4 name ++ " " ++
    cpu.registerSummary

/-- Traces the coming step, if traces are kept. -/
def trace (log : Capture) (cpu : Cpu) : Capture :=
  if log.filter.admits .trace then log.log .trace (traceLine cpu) else log

/-- Keeps what an instruction reported. -/
def keepReport (log : Capture) (report : List String) : Capture :=
  report.foldl (fun log text => log.log .info text) log

/-- Counts the last instruction of a processor, if it was fetched from `pc`. -/
def tally (metrics : Option Metrics) (pc : UInt16) (last : Option Instruction) : Option Metrics :=
  match metrics, last with
  | some m, some i => if i.address = pc then some (m.recordInstruction i) else some m
  | metrics, _ => metrics

/-- One step of the processor, traced and counted. -/
def stepOnce (c : Controller) : Controller × Except Fault StepResult :=
  let ⟨cpu, source, state, singleStep, steps, clockHz, paceOrigin, metrics, log⟩ := c
  let pc := cpu.pc
  let log := trace log cpu
  let ⟨cpu, result, report⟩ := cpu.step
  let log := keepReport log report
  match result with
  | .ok r =>
    let metrics := tally metrics pc cpu.last
    (⟨cpu, source, state, singleStep, steps + 1, clockHz, paceOrigin, metrics, log⟩, .ok r)
  | .error fault =>
    (⟨cpu, source, state, singleStep, steps, clockHz, paceOrigin, metrics, log⟩, .error fault)

/-- The message with which a pause begins. -/
def pauseNotice (cpu : Cpu) : Message :=
  ⟨.info, "Paused at PC=" ++ Hex.address cpu.pc ++ ". " ++ commandPrompt⟩

/-- Takes commands until the run is resumed. Pacing begins anew after that. -/
def pause (c : Controller) : Controller :=
  let attended := attend c.cpu.registerSummary c.source.pending c.source.served
  { c with
    source := attended.source, singleStep := attended.singleStep, state := .running
    paceOrigin := none
    log := (c.log.add (pauseNotice c.cpu)).addAll attended.messages }

/-- Counts a pause and makes it. -/
def pauseFor (c : Controller) (reason : PauseReason) : Controller :=
  { c with metrics := c.metrics.map fun (m : Metrics) => m.recordPause reason }.pause

/-- Ends the run. -/
def finish (c : Controller) : Controller :=
  { c with
    state := .finished
    log := c.log.log .info ("Finished after " ++ toString c.steps ++ " steps") }

/-- What follows a successful step: a pause where one is due, and the end of the run after the step
that finished it. -/
def settle (c : Controller) : StepResult → Controller
  | .finished => (if c.singleStep then c.pauseFor .singleStep else c).finish
  | .pause => c.pauseFor .breakpoint
  | .proceed => if c.singleStep then c.pauseFor .singleStep else c

/-- Sees to it that pacing has begun if the run is paced. This stands before a step and, because a
pause may have come in between, after it. -/
def pace (c : Controller) : Controller :=
  if c.isPaced then { c with paceOrigin := some (c.paceOrigin.getD c.cpu.totalCycles) } else c

/-- Runs for at most `limit` further steps. -/
def loop : (limit : Nat) → Controller → Controller × Except Fault RunOutcome
  | 0, c =>
    (c, .ok (if c.state = .finished then .finished c.steps else .stepLimit c.steps))
  | limit + 1, c =>
    if c.state = .finished then (c, .ok (.finished c.steps))
    else
      match c.pace.stepOnce with
      | (c, .ok r) => loop limit (c.settle r).pace
      | (c, .error fault) => (c, .error fault)

/-- Runs for at most `limit` steps. A run that was left paused resumes first. -/
def runFor (c : Controller) (limit : Nat) : Controller × Except Fault RunOutcome :=
  loop limit (if c.state = .paused then c.pause else c)

/-- Steps are counted in 64 bits, so no run takes more than this. -/
def stepBound : Nat := 1 <<< 64 - 1

/-- Runs until the program has ended and gives the number of steps. -/
def runUntilFinish (c : Controller) : Controller × Except Fault Nat :=
  let (c, outcome) := c.runFor stepBound
  (c, outcome.map RunOutcome.steps)

end Controller

end Core65C02
