import Core65C02.CommandLine.Help
import Core65C02.CommandLine.Listings
import Core65C02.CommandLine.Run

/-!
# The command line

What the program does with its arguments. Arguments that make no sense are complained about and give
the status two.
-/

namespace Core65C02.CommandLine

variable {m : Type → Type} [Monad m] [Host m]

/-- The output for arguments that make no sense. -/
def complaint (text : String) : Output where
  errors := "error: " ++ text ++ "\n\nUsage: " ++ usageText .overview ++ "\n"
  exitCode := 2

/-- Does what the arguments ask for. -/
def execute (args : List String) (c : Circumstances) : m Output :=
  match parse args with
  | .ok (.run o) => Task.run (runProgram o c)
  | .ok (.vectors paths all) => Task.run (runVectors paths all)
  | .ok (.opcodes mnemonic) => Task.run (listOpcodes mnemonic)
  | .ok (.help topic) => Task.run (printAll (helpLines topic))
  | .ok .version => Task.run (print versionText)
  | .error (.usage text) => pure (complaint text)
  | .error .help => Task.run (printAll (helpLines .overview))
  | .error .version => Task.run (print versionText)

end Core65C02.CommandLine
