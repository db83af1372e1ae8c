import Core65C02.Checkpoint.Identifier
import Core65C02.CommandLine.Execute

/-!
# The program

The command line on the files of this machine. What is on standard input is read before a program is
run, since a run takes its commands from a source that is a value. The time is that of a file which
was just made.
-/

namespace Core65C02

/-- The value of an action, if it can be done. -/
def attempt {α : Type} (action : IO α) : IO (Option α) := do
  try return some (← action) catch _ => return none

instance : Host IO where
  read path := do return (← attempt (IO.FS.readBinFile path)).map fun bytes => bytes.toList
  write path bytes := do
    return (← attempt (IO.FS.writeBinFile path ⟨bytes.toArray⟩)).isSome
  remove path := do return (← attempt (IO.FS.removeFile path)).isSome
  isDirectory path := do ((← IO.currentDir) / path).isDir
  list path := do
    let entries ← attempt (do ((← IO.currentDir) / path).readDir)
    return (entries.getD #[]).toList.map fun entry => entry.fileName

/-- The time now. -/
def now : IO Timestamp := do
  let (_, path) ← IO.FS.createTempFile
  let modified := (← path.metadata).modified
  IO.FS.removeFile path
  return .ofUnix modified.sec modified.nsec.toNat

/-- What a command is run under. Standard input is read only for a run. -/
def circumstances (args : List String) : IO CommandLine.Circumstances := do
  let input ← match CommandLine.parse args with
    | .ok (.run _) => do (← IO.getStdin).readBinToEnd
    | _ => pure .empty
  let random ← IO.getRandomBytes 16
  return { input := input.toList, id := Identifier.ofRandom random.toList, now := ← now }

end Core65C02

open Core65C02 in
/-- Does what the arguments ask for. -/
def main (args : List String) : IO UInt32 := do
  let out ← CommandLine.execute args (← circumstances args)
  IO.print out.standard
  IO.eprint out.errors
  return out.exitCode.toUInt32
