import Core65C02.Assembler.Format
import Core65C02.Assembler.Script
import Core65C02.Files.Host
import Core65C02.Files.Path
import Core65C02.Text.Number
import Core65C02.Text.Utf8

/-!
# Tools

The tools that can take the place of an assembler: `true` and `false`, which do nothing, and `sh`,
which runs a script on the files of the host. A tool prints bytes and ends with a status, unless the
script kills it.
-/

namespace Core65C02

/-- How a tool ended. -/
structure Completion where
  /-- The status, unless the tool was killed. -/
  status : Option Nat
  /-- What it printed. -/
  output : List UInt8 := []
  /-- What it reported. -/
  errors : List UInt8 := []
deriving DecidableEq

namespace Script

/-- A script that is running. -/
structure Running where
  /-- The name of the script. -/
  name : String
  /-- The arguments of the script. -/
  arguments : List String
  /-- How the last command ended. -/
  status : Nat := 0
  /-- What was printed. -/
  output : List UInt8 := []
  /-- What was reported. -/
  errors : List UInt8 := []
  /-- How the script ended, once it has. -/
  ended : Option (Option Nat) := none

/-- The number of a running script. -/
def processNumber : String := "1000"

/-- The text that a reference stands for. -/
def Running.value (r : Running) : Reference → String
  | .argument 0 => r.name
  | .argument (n + 1) => r.arguments.getD n ""
  | .argumentCount => toString r.arguments.length
  | .allArguments => " ".intercalate r.arguments
  | .lastStatus => toString r.status
  | .process => processNumber

/-- A field that is being put together, and those before it in reverse order. -/
abbrev Fields := List String × Option (List Char)

/-- Ends a field, if one was begun. -/
def endField : Fields → Fields
  | (done, some cs) => (String.ofList cs :: done, none)
  | (done, none) => (done, none)

/-- Adds characters to a field. -/
def addToField (fields : Fields) (cs : List Char) : Fields :=
  (fields.1, some (fields.2.getD [] ++ cs))

/-- Adds a text in which blanks end fields. -/
def addSplit (fields : Fields) (cs : List Char) : Fields :=
  cs.foldl (fun fields c =>
    if c = ' ' ∨ c = '\t' ∨ c = '\n' then endField fields else addToField fields [c]) fields

/-- Adds texts that are fields of their own, the first one apart, which goes on with the field that
was begun. -/
def addSeparate (fields : Fields) : List String → Fields
  | [] => fields
  | text :: rest =>
    rest.foldl (fun fields text => addToField (endField fields) text.toList)
      (addToField fields text.toList)

/-- Adds a piece of a word. -/
def Running.addPiece (r : Running) (fields : Fields) : Piece → Fields
  | .literal c => addToField fields [c]
  | .reference .allArguments true => addSeparate fields r.arguments
  | .reference target true => addToField fields (r.value target).toList
  | .reference target false => addSplit fields (r.value target).toList

/-- The fields of a word. -/
def Running.expand (r : Running) (w : Word) : List String :=
  let fields := (endField (w.pieces.foldl r.addPiece ([], none))).1.reverse
  if fields.isEmpty && w.quoted && w.pieces.isEmpty then [""] else fields

/-- What a command did: its status, what it printed and reported, and how the script ended, if it
did. -/
structure Effect where
  status : Nat := 0
  output : List UInt8 := []
  errors : List UInt8 := []
  ended : Option (Option Nat) := none

/-- The effect of a command that failed with a report. -/
def Effect.failure (status : Nat) (report : String) : Effect :=
  { status, errors := (report ++ "\n").toUTF8.toList }

/-- What `exit` does. -/
def exitWith (r : Running) : List String → Effect
  | [] => { ended := some (some r.status) }
  | text :: _ =>
    match Text.number 10 (1 <<< 31) text.toList with
    | .ok n => { ended := some (some (n % 256)) }
    | .error _ =>
      { Effect.failure 2 (r.name ++ ": 1: exit: Illegal number: " ++ text) with
        ended := some (some 2) }

/-- What `kill` does. -/
def killWith (args : List String) : Effect :=
  if args.getLast? = some processNumber then
    if args.head? = some "-0" then {} else { ended := some none }
  else .failure 1 "kill: No such process"

/-- What `echo` does. -/
def echo : List String → Effect
  | "-n" :: args => { output := unescaped (" ".intercalate args) }
  | args => { output := unescaped (" ".intercalate args) ++ [10] }

section
variable {m : Type → Type} [Monad m] [Host m]

/-- The path at which a copy of a file ends up. -/
def destination (source target : String) : m String := do
  if ← Host.isDirectory target then
    return Path.join target ((Path.fileName? source).getD "")
  else return target

/-- Copies a file. -/
def copy (source target : String) : m Effect := do
  match ← Host.read source with
  | none =>
    return .failure 1 ("cp: cannot stat '" ++ source ++ "': No such file or directory")
  | some bytes =>
    let target ← destination source target
    if ← Host.write target bytes then return {}
    else
      return .failure 1
        ("cp: cannot create regular file '" ++ target ++ "': No such file or directory")

/-- Removes files; with `force`, a missing file is no failure. -/
def removeAll (force : Bool) (effect : Effect) : List String → m Effect
  | [] => return effect
  | path :: rest => do
    if (← Host.remove path) || force then removeAll force effect rest
    else
      let failure := Effect.failure 1
        ("rm: cannot remove '" ++ path ++ "': No such file or directory")
      removeAll force { failure with errors := effect.errors ++ failure.errors } rest

/-- Prints files. -/
def concatenate (effect : Effect) : List String → m Effect
  | [] => return effect
  | path :: rest => do
    match ← Host.read path with
    | some bytes => concatenate { effect with output := effect.output ++ bytes } rest
    | none =>
      let failure := Effect.failure 1 ("cat: " ++ path ++ ": No such file or directory")
      concatenate
        { failure with output := effect.output, errors := effect.errors ++ failure.errors } rest

/-- Runs a command that is given by its fields. -/
def runFields (r : Running) : List String → m Effect
  | [] => return { status := r.status }
  | name :: args =>
    match name, args with
    | ":", _ | "true", _ | "set", _ => return {}
    | "false", _ => return { status := 1 }
    | "exit", args => return exitWith r args
    | "kill", args => return killWith args
    | "echo", args => return echo args
    | "printf", format :: args => return { output := formatted format args }
    | "cp", args =>
      match args.filter fun arg => !arg.startsWith "-" with
      | [source, target] => copy source target
      | _ => return .failure 1 "cp: missing file operand"
    | "rm", "-f" :: args => removeAll true {} args
    | "rm", args => removeAll false {} args
    | "cat", args => concatenate {} args
    | name, _ => return .failure 127 (r.name ++ ": 1: " ++ name ++ ": not found")

/-- Where the two outputs of a command go: to a file or to one of the outputs of the script. -/
abbrev Target := String ⊕ Channel

/-- Follows redirections. A file is created at once; one that cannot be created is the error. -/
def redirect (r : Running) (output errors : Target) :
    List Redirection → m (Except String (Target × Target))
  | [] => return .ok (output, errors)
  | .toChannel .output target :: rest =>
    redirect r (match target with | .output => output | .errors => errors) errors rest
  | .toChannel .errors target :: rest =>
    redirect r output (match target with | .output => output | .errors => errors) rest
  | .toFile channel word append :: rest => do
    let path := (r.expand word).headD ""
    let old ← if append then Host.read path else pure none
    if ← Host.write path (old.getD []) then
      match channel with
      | .output => redirect r (.inl path) errors rest
      | .errors => redirect r output (.inl path) rest
    else return .error path

/-- Hands bytes to where they go. -/
def deliver (r : Running) (target : Target) (bytes : List UInt8) : m Running := do
  match target with
  | .inr .output => return { r with output := r.output ++ bytes }
  | .inr .errors => return { r with errors := r.errors ++ bytes }
  | .inl path =>
    let old ← Host.read path
    let _ ← Host.write path (old.getD [] ++ bytes)
    return r

/-- Runs a command. -/
def runCommand (r : Running) (c : Command) : m Running := do
  match ← redirect r (.inr .output) (.inr .errors) c.redirections with
  | .error path =>
    let failure := Effect.failure 2
      (r.name ++ ": 1: cannot create " ++ path ++ ": Directory nonexistent")
    return { r with status := 2, errors := r.errors ++ failure.errors }
  | .ok (output, errors) =>
    let effect ← runFields r (c.words.flatMap r.expand)
    let r ← deliver r output effect.output
    let r ← deliver r errors effect.errors
    return { r with status := effect.status, ended := effect.ended }

/-- Runs commands until one ends the script. -/
def runCommands (r : Running) : List Command → m Running
  | [] => return r
  | c :: rest => do
    let due := match c.guard with
      | .always => true
      | .afterSuccess => r.status = 0
      | .afterFailure => r.status ≠ 0
    let r ← if due then runCommand r c else pure r
    if r.ended.isSome then return r else runCommands r rest

/-- Runs a script. -/
def run (name : String) (arguments : List String) (text : String) : m Completion := do
  let r ← runCommands { name, arguments } (parse text)
  return ⟨r.ended.getD (some r.status), r.output, r.errors⟩

end

end Script

namespace Tool

/-- The status and the report of a shell that cannot begin. -/
def refusal (report : String) : Completion :=
  ⟨some 2, [], (report ++ "\n").toUTF8.toList⟩

/-- The name of a tool that is called by its name or by its path in one of the usual directories. -/
def name? (executable : String) : Option String :=
  ["true", "false", "sh"].find? fun name =>
    executable == name || executable == "/bin/" ++ name || executable == "/usr/bin/" ++ name

section
variable {m : Type → Type} [Monad m] [Host m]

/-- Runs the script that is given by the arguments of a shell: after `-c` as text, or else in a
file. -/
def runShell (executable : String) : List String → m Completion
  | "-c" :: text :: name :: arguments => Script.run name arguments text
  | ["-c", text] => Script.run executable [] text
  | ["-c"] => return refusal (executable ++ ": 0: -c requires an argument")
  | path :: arguments => do
    if path.startsWith "-" then
      return refusal (executable ++ ": 0: Illegal option " ++ path)
    else
      match ← Host.read path with
      | some bytes => Script.run path arguments (Text.decodeLossy bytes)
      | none => return refusal (executable ++ ": 0: cannot open " ++ path ++ ": No such file")
  | [] => return ⟨some 0, [], []⟩

/-- Runs a tool, if there is one of that name. A call in which a text holds the character zero
cannot be made. -/
def run (executable : String) (arguments : List String) : m (Option Completion) := do
  if (executable :: arguments).any fun text => text.toList.contains '\x00' then return none
  else
    match name? executable with
    | some "true" => return some ⟨some 0, [], []⟩
    | some "false" => return some ⟨some 1, [], []⟩
    | some _ => return some (← runShell executable arguments)
    | none => return none

end

end Tool

end Core65C02
