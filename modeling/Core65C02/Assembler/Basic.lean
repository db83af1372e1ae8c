import Core65C02.Assembler.Tool
import Core65C02.Settings.Basic
import Core65C02.Text.Blank

/-!
# Assembling

Source text becomes a program by way of an assembler: a tool that is called with its usual
arguments, `-o`, the path of the output and the path of the source. A byte order mark in front of
the source is taken away first. Files that are made on the way are removed again.
-/

namespace Core65C02

/-- Why there is no program. -/
inductive AssemblerError
  /-- The source has nothing but blanks, or no source is named. -/
  | emptySource
  /-- There is no such source file. -/
  | inputNotFound (path : String)
  /-- The assembler cannot be called. -/
  | notStarted (executable : String)
  /-- The assembler ended with a status other than zero, or was killed. -/
  | failed (status : Option Nat) (output errors : String)
  /-- The assembler left no output, or an empty one. -/
  | noOutput (path : String)
  /-- A file could not be written. -/
  | unwritable
deriving DecidableEq

/-- The wording of a status. -/
def statusText : Option Nat → String
  | some n => "Some(" ++ toString n ++ ")"
  | none => "None"

/-- The wording of a failure. -/
def AssemblerError.message : AssemblerError → String
  | emptySource => "assembly source is empty"
  | inputNotFound path => "assembly input file not found: " ++ path
  | notStarted executable => "failed to start assembler `" ++ executable ++ "`"
  | failed status output errors =>
    "assembler exited with status " ++ statusText status ++ "\nstdout:\n" ++ output ++
      "\nstderr:\n" ++ errors
  | noOutput path => "assembler produced no output at " ++ path
  | unwritable => "assembler I/O failed"

/-- A call of an assembler. -/
structure Assembler where
  /-- The assembler and its usual arguments. -/
  settings : AssemblerSettings := {}
  /-- Where files that are made on the way are put. -/
  directory : String := "/tmp"
  /-- What makes the names of those files different from all others. -/
  tag : String
deriving DecidableEq

namespace Assembler

/-- The byte order mark of UTF-8. -/
def byteOrderMark : List UInt8 := [0xEF, 0xBB, 0xBF]

/-- Bytes without a byte order mark in front, if there is one. -/
def withoutMark? (bytes : List UInt8) : Option (List UInt8) := byteOrderMark.isPrefixOf? bytes

/-- The path of a file that is made on the way. -/
def path (a : Assembler) (ending : String) : String :=
  Path.join a.directory ("w65c02_" ++ a.tag ++ ending)

section
variable {m : Type → Type} [Monad m] [Host m]

/-- The program that a call of the assembler leaves at `output`. -/
def invoke (a : Assembler) (input output : String) : m (Except AssemblerError (List UInt8)) := do
  match ← Tool.run a.settings.executable (a.settings.args ++ ["-o", output, input]) with
  | none => return .error (.notStarted a.settings.executable)
  | some ended =>
    if ended.status ≠ some 0 then
      return .error
        (.failed ended.status (Text.decodeLossy ended.output) (Text.decodeLossy ended.errors))
    else
      match ← Host.read output with
      | some (b :: rest) => return .ok (b :: rest)
      | _ => return .error (.noOutput output)

/-- Calls the assembler on a file and removes its output. -/
def run (a : Assembler) (input : String) : m (Except AssemblerError (List UInt8)) := do
  let output := a.path ".bin"
  let result ← a.invoke input output
  let _ ← Host.remove output
  return result

/-- Calls the assembler on bytes, which are put into a file for that time. -/
def runOn (a : Assembler) (ending : String) (bytes : List UInt8) :
    m (Except AssemblerError (List UInt8)) := do
  let input := a.path ending
  if ← Host.write input bytes then
    let result ← a.run input
    let _ ← Host.remove input
    return result
  else return .error .unwritable

/-- The program of a source text. -/
def assemble (a : Assembler) (source : String) : m (Except AssemblerError (List UInt8)) := do
  if (Text.trimChars source.toList).isEmpty then return .error .emptySource
  else
    let bytes := source.toUTF8.toList
    a.runOn ".asm" ((withoutMark? bytes).getD bytes)

/-- The program of a source file. -/
def assembleFile (a : Assembler) (path : String) : m (Except AssemblerError (List UInt8)) := do
  if path = "" then return .error .emptySource
  else
    match ← Host.read path with
    | none => return .error (.inputNotFound path)
    | some bytes =>
      match withoutMark? bytes with
      | some stripped => a.runOn "_nobom.asm" stripped
      | none => a.run path

end

end Assembler

end Core65C02
