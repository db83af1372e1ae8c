import Core65C02.Log

/-!
# Output of commands

A command prints lines, reports messages, and either ends well or with an error. What was printed
before an error stays.
-/

namespace Core65C02.CommandLine

/-- What a command printed and how it ended. -/
structure Output where
  /-- What was printed. -/
  standard : String := ""
  /-- What was reported. -/
  errors : String := ""
  /-- The status at the end. -/
  exitCode : UInt8 := 0
deriving DecidableEq, Inhabited

/-- An error that ends a command. -/
structure Failure where
  /-- What could not be done. -/
  what : String
  /-- Why not, if there is more to say. -/
  cause : Option String := none
deriving DecidableEq

/-- The wording of an error. -/
def Failure.message (f : Failure) : String :=
  "Error: " ++ f.what ++
    match f.cause with
    | some cause => "\n\nCaused by:\n    " ++ cause
    | none => ""

/-- A command on a host, which prints and can fail. -/
abbrev Task (m : Type → Type) := ExceptT Failure (StateT Output m)

section
variable {m : Type → Type} [Monad m]

/-- Prints a line. -/
def print (line : String) : Task m Unit :=
  modify fun out => { out with standard := out.standard ++ line ++ "\n" }

/-- Reports a line. -/
def report (line : String) : Task m Unit :=
  modify fun out => { out with errors := out.errors ++ line ++ "\n" }

/-- Prints lines. -/
def printAll : List String → Task m Unit
  | [] => pure ()
  | line :: rest => do
    print line
    printAll rest

/-- Reports messages, each with its level. -/
def reportAll : List Message → Task m Unit
  | [] => pure ()
  | message :: rest => do
    report ("[" ++ message.level.name ++ "] " ++ message.text)
    reportAll rest

/-- Asks the host. -/
def ask {α : Type} (action : m α) : Task m α := ExceptT.lift (StateT.lift action)

/-- Goes on with a value, or fails with the cause. -/
def orFail {ε α : Type} (what : String) (message : ε → String) : Except ε α → Task m α
  | .ok value => pure value
  | .error e => throw ⟨what, some (message e)⟩

/-- Runs a command. An error is reported and gives the status one. -/
def Task.run (task : Task m Unit) : m Output := do
  let (result, out) ← (ExceptT.run task).run {}
  match result with
  | .ok () => return out
  | .error f => return { out with errors := out.errors ++ f.message ++ "\n", exitCode := 1 }

end

end Core65C02.CommandLine
