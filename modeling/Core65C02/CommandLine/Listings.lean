import Core65C02.CommandLine.Output
import Core65C02.Files.Host
import Core65C02.Forms.Conformance
import Core65C02.Opcode.Parse
import Core65C02.Opcode.Standard
import Core65C02.Text.Pad

/-!
# Listings

The command `vectors` prints a line for each file of conformance cases, and the first failures of
each; the command `opcodes` prints the opcode table.
-/

namespace Core65C02.CommandLine

/-- The heading of the opcode table. -/
def opcodeHeading : String := "OP  MNEM  MODE                          BYTES CYCLES"

/-- A row of the opcode table. -/
def opcodeRow (d : Descriptor) : String :=
  Hex.byte d.opcode ++ "  " ++ Text.pad .left ' ' 4 d.mnemonic.name ++ "  " ++
  Text.pad .left ' ' 28 d.mode.name ++ "  " ++ Text.pad .right ' ' 5 (toString d.bytes.toNat) ++
  " " ++ Text.pad .right ' ' 6 (toString d.cycles.toNat)

/-- The failures of a file that are shown. -/
def shownFailures : Nat := 3

/-- The lines on a file of conformance cases. -/
def reportLines (r : Conformance.Report) : List String :=
  r.display :: (r.failures.take shownFailures).map fun outcome => "    " ++ outcome.display

section
variable {m : Type → Type} [Monad m] [Host m]

/-- The command `opcodes`. -/
def listOpcodes (mnemonic : Option String) : Task m Unit := do
  let rows ← match mnemonic with
    | none => pure OpcodeTable.standard.toList
    | some text =>
      match Mnemonic.parse? text with
      | some m => pure (OpcodeTable.standard.byMnemonic m)
      | none => throw ⟨Mnemonic.unknownMessage text, none⟩
  printAll (opcodeHeading :: rows.map opcodeRow)

/-- The files that a path stands for: itself, or the JSON files in the directory by name. -/
def filesAt (path : String) : Task m (List String) := do
  if ← ask (Host.isDirectory path) then
    let names ← ask (Host.list path)
    let wanted := names.filter fun name => Path.extension? name == some "json"
    return (wanted.mergeSort fun a b => a ≤ b).map (Path.join path)
  else return [path]

/-- How many files were run, and how many of them had failures. -/
structure Tally where
  /-- The files that were run. -/
  total : Nat := 0
  /-- Those with failures. -/
  failed : Nat := 0
deriving DecidableEq

/-- Runs files one after the other. -/
def runFiles (all : Bool) (tally : Tally) : List String → Task m Tally
  | [] => pure tally
  | file :: rest => do
    if !all && Conformance.isSkipped file then runFiles all tally rest
    else
      let content ← ask (Host.read file)
      let r ← orFail ("running " ++ file) StateError.message (Conformance.runFile file content)
      printAll (reportLines r)
      runFiles all ⟨tally.total + 1, if r.isSuccess then tally.failed else tally.failed + 1⟩ rest

/-- Runs the files that paths stand for. -/
def runPaths (all : Bool) (tally : Tally) : List String → Task m Tally
  | [] => pure tally
  | path :: rest => do
    let tally ← runFiles all tally (← filesAt path)
    runPaths all tally rest

/-- The command `vectors`. -/
def runVectors (paths : List String) (all : Bool) : Task m Unit := do
  let tally ← runPaths all {} paths
  print (toString (tally.total - tally.failed) ++ " of " ++ toString tally.total ++ " files passed")
  if 0 < tally.failed then throw ⟨toString tally.failed ++ " vector files failed", none⟩

end

end Core65C02.CommandLine
