import Core65C02.Assembler.Basic
import Core65C02.CommandLine.Arguments
import Core65C02.CommandLine.Output
import Core65C02.Forms.Checkpoint
import Core65C02.Forms.Settings
import Core65C02.Forms.Snapshot
import Core65C02.Run.Controller

/-!
# Running a program

The command `run` loads a program, runs it under a controller that takes its commands from standard
input, and prints how it ended. Options win over the file of settings.
-/

namespace Core65C02.CommandLine

/-- What a run needs besides its arguments. -/
structure Circumstances where
  /-- What is on standard input. -/
  input : List UInt8 := []
  /-- What tells a new checkpoint, and a new temporary file, from all others. -/
  id : String := ""
  /-- The time at which the command is run. -/
  now : Timestamp := default
deriving Inhabited

/-- The settings of a file with the options of the command line. -/
def RunOptions.override (o : RunOptions) (s : Settings) : Settings where
  baseAddress := o.base.getD s.baseAddress
  clock := o.clock.getD s.clock
  maxSteps := o.maxSteps.or s.maxSteps
  singleStep := s.singleStep || o.singleStep
  logLevel := o.logLevel.getD s.logLevel
  recordMetrics := s.recordMetrics || o.metrics
  assembler := s.assembler

/-- The wording of rejected settings. -/
def settingsMessage : SettingsError → String
  | .invalidClock why => why.message
  | .malformed => "invalid config JSON"
  | .unreadable => "cannot read config"

/-- The levels that a text asks for; grave messages only if it names none. -/
def filterOf (text : String) : Filter :=
  match String.ofList (text.toList.map Char.toLower) with
  | "off" => .off
  | "warn" => .upTo .warn
  | "info" => .upTo .info
  | "debug" => .upTo .debug
  | "trace" => .upTo .trace
  | _ => .upTo .error

section
variable {m : Type → Type} [Monad m] [Host m]

/-- The settings of a run. -/
def settingsFor (o : RunOptions) : Task m Settings := do
  match o.config with
  | none => return o.override {}
  | some path =>
    let content ← ask (Host.read path)
    let settings ← orFail ("loading config " ++ path) settingsMessage (Settings.ofFile content)
    return o.override settings

/-- The bytes of the program. -/
def programFor (o : RunOptions) (s : Settings) (c : Circumstances) : Task m (List UInt8) := do
  if o.assemble then
    let assembler : Assembler := { settings := s.assembler, tag := c.id }
    let result ← ask (assembler.assembleFile o.program)
    orFail ("assembling " ++ o.program) AssemblerError.message result
  else
    match ← ask (Host.read o.program) with
    | some bytes => return bytes
    | none => throw ⟨"reading " ++ o.program, none⟩

/-- The message with which a run begins. -/
def loadedNotice (program : List UInt8) (s : Settings) : Message :=
  ⟨.info, "Loaded " ++ toString program.length ++ " bytes at $" ++ Hex.address s.baseAddress ++
    ", clock " ++ s.clock.display⟩

/-- A controller with a program that is ready to run. -/
def controllerFor (program : List UInt8) (s : Settings) (c : Circumstances) : Controller :=
  let control : Controller := {
    cpu := ({} : Cpu).loadProgram program s.baseAddress
    source := .ofBytes c.input
    singleStep := s.singleStep
    metrics := if s.recordMetrics then some ({} : Metrics).recordProgramLoad else none
    log := ({ filter := filterOf s.logLevel } : Capture).add (loadedNotice program s) }
  control.withClockHz s.clock.hz

/-- Runs as far as the settings allow. -/
def runToEnd (control : Controller) (maxSteps : Option Nat) :
    Controller × Except Fault RunOutcome :=
  match maxSteps with
  | some limit => control.runFor limit
  | none =>
    let (control, result) := control.runUntilFinish
    (control, result.map .finished)

/-- The line that says how a run ended. -/
def outcomeLine : RunOutcome → String
  | .finished steps => "Finished after " ++ toString steps ++ " steps"
  | .stepLimit steps => "Stopped at step limit after " ++ toString steps ++ " steps"

/-- Writes a text to a file. -/
def writeText (what path text : String) : Task m Unit := do
  unless ← ask (Host.write path text.toUTF8.toList) do
    throw ⟨what ++ " " ++ path, some "the file cannot be written"⟩

/-- The checkpoint of a run that has come back. -/
def checkpointOf (o : RunOptions) (c : Circumstances) (control : Controller) : Checkpoint :=
  let reason : CheckpointReason := if control.state = .finished then .finished else .manual
  .capture control.cpu c.id ((Path.fileName? o.program).getD "program") c.now reason control.steps

/-- Writes the files that are asked for. -/
def writeFiles (o : RunOptions) (c : Circumstances) (control : Controller) : Task m Unit := do
  if let some path := o.saveState then
    writeText "writing" path control.cpu.snapshot.toRaw.toJson.renderIndented
  if let some path := o.checkpoint then
    writeText "writing checkpoint" path (checkpointOf o c control).save

/-- The command `run`. -/
def runProgram (o : RunOptions) (c : Circumstances) : Task m Unit := do
  let settings ← settingsFor o
  let program ← programFor o settings c
  if program.isEmpty then throw ⟨o.program ++ " is empty", none⟩
  let (control, result) := runToEnd (controllerFor program settings c) settings.maxSteps
  reportAll control.log.messages.toList
  match result with
  | .error fault =>
    report control.cpu.registerSummary
    throw ⟨"execution stopped: " ++ fault.message, none⟩
  | .ok outcome =>
    print (outcomeLine outcome)
    print control.cpu.registerSummary
    print ("Cycles: " ++ toString control.cpu.totalCycles)
    writeFiles o c control
    if let some metrics := control.metrics then printAll metrics.expose

end

end Core65C02.CommandLine
