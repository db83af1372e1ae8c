import Core65C02.Log
import Core65C02.Text.Blank

/-!
# Commands of a paused run

While a run is paused it takes commands from a source until one of them resumes it. A source is the
sequence of what it will answer: a command text or a failed read, after which the run goes on as if
the source were closed. A source of bytes gives one command for each line.
-/

namespace Core65C02

/-- What a paused run can be told. -/
inductive Command
  /-- Go on. -/
  | resume
  /-- Report the registers. -/
  | registers
  /-- Go on, and pause again after the next step. -/
  | step
deriving DecidableEq

/-- The command that a text stands for; blanks around it do not matter. -/
def Command.parse? (line : String) : Option Command :=
  match Text.trim line with
  | "c" | "continue" => some .resume
  | "regs" => some .registers
  | "step" => some .step
  | _ => none

/-- The reminder of the commands. -/
def commandPrompt : String :=
  "Enter 'c' or 'continue' to resume, 'regs' to print registers, 'step' to step one instruction."

/-- Where commands come from. -/
structure CommandSource where
  /-- The answers to come: command texts, and `none` for a read that fails. -/
  pending : List (Option String) := []
  /-- How many commands have been handed out. -/
  served : Nat := 0
deriving DecidableEq, Inhabited

namespace CommandSource

/-- The next command, unless the source is closed or its read fails. -/
def next (source : CommandSource) : Option String × CommandSource :=
  match source.pending with
  | [] => (none, source)
  | none :: rest => (none, { source with pending := rest })
  | some line :: rest => (some line, ⟨rest, source.served + 1⟩)

/-- A source that hands out fixed texts. -/
def ofScript (commands : List String) : CommandSource := ⟨commands.map some, 0⟩

/-- The byte that ends a line. -/
def newline : UInt8 := 0x0A

/-- The lines of a text in bytes, without their ends; `line` is what was read of the first one, in
reverse. What follows the last end is a line if it is not empty. -/
def linesFrom (line : List UInt8) : List UInt8 → List (List UInt8)
  | [] => if line.isEmpty then [] else [line.reverse]
  | b :: rest =>
    if b = newline then line.reverse :: linesFrom [] rest else linesFrom (b :: line) rest

/-- The lines of a text in bytes, without their ends. -/
def lines (bytes : List UInt8) : List (List UInt8) := linesFrom [] bytes

/-- The command of a line, without the blanks around it; bytes that are no UTF-8 cannot be read. -/
def readLine (line : List UInt8) : Option String :=
  (String.fromUTF8? ⟨line.toArray⟩).map Text.trim

/-- A source that reads one command a line. -/
def ofBytes (bytes : List UInt8) : CommandSource := ⟨(lines bytes).map readLine, 0⟩

end CommandSource

/-- What a pause leads to. -/
structure Attended where
  /-- The messages of the pause. -/
  messages : List Message
  /-- The source after the pause. -/
  source : CommandSource
  /-- Whether the run pauses again after the next step. -/
  singleStep : Bool
deriving DecidableEq

/-- Takes commands until one of them resumes the run or none is left. Registers are reported as
`summary`. -/
def attend (summary : String) : List (Option String) → (served : Nat) → Attended
  | [], served => ⟨[], ⟨[], served⟩, false⟩
  | none :: rest, served => ⟨[], ⟨rest, served⟩, false⟩
  | some line :: rest, served =>
    match Command.parse? line with
    | some .resume => ⟨[], ⟨rest, served + 1⟩, false⟩
    | some .step => ⟨[⟨.info, "Single Step Mode Enabled"⟩], ⟨rest, served + 1⟩, true⟩
    | some .registers =>
      let later := attend summary rest (served + 1)
      { later with messages := ⟨.info, summary⟩ :: later.messages }
    | none =>
      let later := attend summary rest (served + 1)
      { later with
        messages := ⟨.warn, "Unknown command `" ++ line ++ "`. " ++ commandPrompt⟩ ::
          later.messages }

end Core65C02
