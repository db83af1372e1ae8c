import Core65C02.Settings.Address
import Core65C02.Settings.Clock

/-!
# Arguments of the command line

An invocation names a command and gives it options and operands. Options with a value take it from
the next argument or after an equals sign; no option may be given twice; after `--` there are
operands only. Arguments are looked at from left to right, and a request for help ends that.
-/

namespace Core65C02.CommandLine

/-- What `run` is told. -/
structure RunOptions where
  /-- The program: bytes, or source text. -/
  program : String
  /-- Where the program is loaded. -/
  base : Option UInt16 := none
  /-- Whether the program is source text. -/
  assemble : Bool := false
  /-- The file of settings. -/
  config : Option String := none
  /-- How fast the run is paced. -/
  clock : Option ClockRate := none
  /-- The bound on the steps. -/
  maxSteps : Option Nat := none
  /-- Whether the run pauses after every step. -/
  singleStep : Bool := false
  /-- Which messages are shown. -/
  logLevel : Option String := none
  /-- Whether counters are kept and printed. -/
  metrics : Bool := false
  /-- Where the last state is written. -/
  saveState : Option String := none
  /-- Where a checkpoint of the last state is written. -/
  checkpoint : Option String := none
deriving DecidableEq, Inhabited

/-- The commands, as far as there is help on them. -/
inductive Topic
  | overview | run | vectors | opcodes | help
deriving DecidableEq

/-- What is to be done. -/
inductive Invocation
  /-- Run a program. -/
  | run (options : RunOptions)
  /-- Run the conformance cases of files and directories, of all opcodes if wanted. -/
  | vectors (paths : List String) (all : Bool)
  /-- List the opcodes, all or those of one mnemonic. -/
  | opcodes (mnemonic : Option String)
  /-- Explain the usage. -/
  | help (topic : Topic)
  /-- Name the version. -/
  | version
deriving DecidableEq

/-- Why reading the arguments ends early. -/
inductive Stop
  /-- Help is asked for. -/
  | help
  /-- The version is asked for. -/
  | version
  /-- The arguments make no sense. -/
  | usage (complaint : String)
deriving DecidableEq

/-- The options of a command, by their names without the two dashes. -/
structure OptionNames where
  /-- Those without a value. -/
  flags : List String
  /-- Those with a value. -/
  valued : List String
  /-- Whether the version can be asked for. -/
  version : Bool := false

/-- An argument that has been understood. -/
inductive Item
  | flag (name : String)
  | value (name value : String)
  | operand (text : String)
deriving DecidableEq

/-- Splits the text of a long option at its first equals sign. -/
def splitValue (text : List Char) : String × Option String :=
  let name := text.takeWhile fun c => c != '='
  match text.drop name.length with
  | [] => (String.ofList name, none)
  | _ :: value => (String.ofList name, some (String.ofList value))

/-- Whether an argument can be the value of the option before it: it does not look like
an option. -/
def canBeValue (text : String) : Bool := !text.startsWith "-" || text == "-"

/-- What a request for help or for the version leads to, if an option is one. -/
def request? (names : OptionNames) (name : String) : Option Stop :=
  if name = "help" then some .help
  else if name = "version" && names.version then some .version
  else none

/-- What a group of short options leads to. There are none but those for help and for
the version. -/
def shortStop (names : OptionNames) : List Char → Stop
  | 'h' :: _ => .help
  | 'V' :: _ => if names.version then .version else .usage "unexpected argument '-V' found"
  | cs => .usage ("unexpected argument '-" ++ String.ofList (cs.take 1) ++ "' found")

/-- Sorts arguments into options and operands, and hands them one by one to `use`. -/
def readItems {α : Type} (names : OptionNames) (use : α → Item → Except Stop α) (state : α) :
    List String → Except Stop α
  | [] => .ok state
  | text :: rest =>
    match text.toList with
    | ['-', '-'] => rest.foldlM (fun state operand => use state (.operand operand)) state
    | '-' :: '-' :: long =>
      match splitValue long with
      | (name, value) =>
        match request? names name, value with
        | some stop, none => .error stop
        | some _, some _ => .error (.usage ("unexpected value for '--" ++ name ++ "'"))
        | none, value =>
          if names.flags.contains name then
            match value with
            | none => do readItems names use (← use state (.flag name)) rest
            | some _ => .error (.usage ("unexpected value for '--" ++ name ++ "'"))
          else if names.valued.contains name then
            match value, rest with
            | some value, rest => do readItems names use (← use state (.value name value)) rest
            | none, next :: rest =>
              if canBeValue next then do readItems names use (← use state (.value name next)) rest
              else .error (.usage ("a value is required for '--" ++ name ++ "'"))
            | none, [] => .error (.usage ("a value is required for '--" ++ name ++ "'"))
          else .error (.usage ("unexpected argument '--" ++ name ++ "' found"))
    | '-' :: c :: short => .error (shortStop names (c :: short))
    | _ => do readItems names use (← use state (.operand text)) rest

/-- Gives an option its value, unless it has one. -/
def once {α : Type} (name : String) (old : Option α) (new : α) : Except Stop (Option α) :=
  match old with
  | none => .ok (some new)
  | some _ => .error (.usage ("the argument '--" ++ name ++ "' cannot be used multiple times"))

/-- Sets a flag, unless it is set. -/
def onceSet (name : String) (old : Bool) : Except Stop Bool :=
  if old then .error (.usage ("the argument '--" ++ name ++ "' cannot be used multiple times"))
  else .ok true

/-- A path, which is not empty. -/
def pathValue (text : String) : Except Stop String :=
  if text = "" then .error (.usage "a value is required but none was supplied") else .ok text

/-- The complaint about a value. -/
def invalidValue (name text why : String) : Stop :=
  .usage ("invalid value '" ++ text ++ "' for '--" ++ name ++ "': " ++ why)

/-- The address that an option gives. -/
def addressValue (name text : String) : Except Stop UInt16 :=
  (parseAddress text).mapError fun e => invalidValue name text e.message

/-- The rate that an option gives. -/
def clockValue (name text : String) : Except Stop ClockRate :=
  (ClockRate.parse text).mapError fun e => invalidValue name text e.message

/-- The number of steps that an option gives. -/
def countValue (name text : String) : Except Stop Nat :=
  (Text.number 10 (1 <<< 64) text.toList).mapError fun e => invalidValue name text e.message

/-- The names of the options of `run`. -/
def runNames : OptionNames where
  flags := ["asm", "single-step", "metrics"]
  valued := ["base", "config", "clock", "max-steps", "log-level", "save-state", "checkpoint"]

/-- The options of `run` so far, the program apart, which may not have been named yet. -/
abbrev RunState := Option String × RunOptions

/-- Takes an argument of `run`. -/
def useForRun (state : RunState) (item : Item) : Except Stop RunState := do
  let (program, o) := state
  match item with
  | .flag "asm" => return (program, { o with assemble := ← onceSet "asm" o.assemble })
  | .flag "single-step" =>
    return (program, { o with singleStep := ← onceSet "single-step" o.singleStep })
  | .flag "metrics" => return (program, { o with metrics := ← onceSet "metrics" o.metrics })
  | .value "base" text =>
    return (program, { o with base := ← once "base" o.base (← addressValue "base" text) })
  | .value "config" text =>
    return (program, { o with config := ← once "config" o.config (← pathValue text) })
  | .value "clock" text =>
    return (program, { o with clock := ← once "clock" o.clock (← clockValue "clock" text) })
  | .value "max-steps" text =>
    return (program,
      { o with maxSteps := ← once "max-steps" o.maxSteps (← countValue "max-steps" text) })
  | .value "log-level" text =>
    return (program, { o with logLevel := ← once "log-level" o.logLevel text })
  | .value "save-state" text =>
    return (program, { o with saveState := ← once "save-state" o.saveState (← pathValue text) })
  | .value "checkpoint" text =>
    return (program, { o with checkpoint := ← once "checkpoint" o.checkpoint (← pathValue text) })
  | .operand text =>
    match program with
    | none => return (some (← pathValue text), o)
    | some _ => throw (.usage ("unexpected argument '" ++ text ++ "' found"))
  | .flag name | .value name _ => throw (.usage ("unexpected argument '--" ++ name ++ "' found"))

/-- The arguments of `run`. -/
def readRun (args : List String) : Except Stop Invocation := do
  match ← readItems runNames useForRun (none, { program := "" }) args with
  | (some program, o) => return .run { o with program }
  | (none, _) => throw (.usage "the required argument <PROGRAM> was not provided")

/-- Takes an argument of `vectors`. -/
def useForVectors (state : List String × Bool) (item : Item) :
    Except Stop (List String × Bool) := do
  match item with
  | .operand text => return (state.1 ++ [← pathValue text], state.2)
  | .flag name => return (state.1, ← onceSet name state.2)
  | .value name _ => throw (.usage ("unexpected argument '--" ++ name ++ "' found"))

/-- The arguments of `vectors`. -/
def readVectors (args : List String) : Except Stop Invocation := do
  match ← readItems ⟨["all"], [], false⟩ useForVectors ([], false) args with
  | ([], _) => throw (.usage "the required argument <PATHS>... was not provided")
  | (paths, all) => return .vectors paths all

/-- Takes an argument of `opcodes`. -/
def useForOpcodes (state : Option String) (item : Item) : Except Stop (Option String) :=
  match item, state with
  | .operand text, none => .ok (some text)
  | .operand text, some _ => .error (.usage ("unexpected argument '" ++ text ++ "' found"))
  | .flag name, _ | .value name _, _ =>
    .error (.usage ("unexpected argument '--" ++ name ++ "' found"))

/-- The arguments of `opcodes`. -/
def readOpcodes (args : List String) : Except Stop Invocation :=
  (readItems ⟨[], [], false⟩ useForOpcodes none args).map .opcodes

/-- The topic that a command names. -/
def topic? : String → Option Topic
  | "run" => some .run
  | "vectors" => some .vectors
  | "opcodes" => some .opcodes
  | "help" => some .help
  | _ => none

/-- The complaint about a command that there is not. -/
def unknownCommand (text : String) : Stop := .usage ("unrecognized subcommand '" ++ text ++ "'")

/-- The arguments of `help`. -/
def readHelp : List String → Except Stop Invocation
  | [] => .ok (.help .overview)
  | [text] =>
    match topic? text with
    | some topic => .ok (.help topic)
    | none => .error (unknownCommand text)
  | _ :: text :: _ => .error (unknownCommand text)

/-- What a command with its arguments is to do. A request for help is on that command. -/
def withHelp (topic : Topic) (read : Except Stop Invocation) : Except Stop Invocation :=
  match read with
  | .error .help => .ok (.help topic)
  | other => other

/-- What the arguments of the program ask for. -/
def parse : List String → Except Stop Invocation
  | [] => .error (.usage "a subcommand is required")
  | "run" :: args => withHelp .run (readRun args)
  | "vectors" :: args => withHelp .vectors (readVectors args)
  | "opcodes" :: args => withHelp .opcodes (readOpcodes args)
  | "help" :: args => readHelp args
  | args =>
    match readItems ⟨[], [], true⟩ (fun _ item => match item with
        | .operand text => .error (unknownCommand text)
        | .flag name | .value name _ => .error (unknownCommand name)) () args with
    | .error .help => .ok (.help .overview)
    | .error .version => .ok .version
    | .error stop => .error stop
    | .ok () => .error (.usage "a subcommand is required")

end Core65C02.CommandLine
