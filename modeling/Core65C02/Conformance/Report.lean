import Core65C02.Conformance.Case
import Core65C02.Files.Path
import Core65C02.Opcode.Standard
import Core65C02.Text.Number

/-!
# Conformance reports

The tally of the cases of one file. A file is named after the opcode it tests; files for opcodes
whose behaviour this core defines differently, and for bytes that are no opcodes, are skipped.
-/

namespace Core65C02.Conformance

/-- The tally of one file. -/
structure Report where
  /-- The path of the file. -/
  file : String
  /-- The number of cases. -/
  total : Nat := 0
  /-- The number of cases that passed. -/
  passed : Nat := 0
  /-- The number of cases with a different number of cycles. -/
  cycleMismatches : Nat := 0
  /-- The outcomes of the cases that did not pass, the latest first. -/
  latestFailures : List Outcome := []
deriving DecidableEq

namespace Report

/-- Adds an outcome to a tally. -/
def record (r : Report) (o : Outcome) : Report where
  file := r.file
  total := r.total + 1
  passed := if o.passed then r.passed + 1 else r.passed
  cycleMismatches := if o.cyclesMatch then r.cycleMismatches else r.cycleMismatches + 1
  latestFailures := if o.passed then r.latestFailures else o :: r.latestFailures

/-- The outcomes of the cases that did not pass, in the order of the file. -/
def failures (r : Report) : List Outcome := r.latestFailures.reverse

/-- The number of cases that did not pass. -/
def failed (r : Report) : Nat := r.total - r.passed

/-- Whether every case passed. -/
def isSuccess (r : Report) : Bool := r.failed == 0

/-- The report of a file on one line. -/
def display (r : Report) : String :=
  r.file ++ ": " ++ toString r.passed ++ "/" ++ toString r.total ++ " passed" ++
  (if 0 < r.cycleMismatches then
    " (" ++ toString r.cycleMismatches ++ " cycle count mismatches)" else "")

/-- Runs cases in order and adds them to a tally. The first case with an invalid state ends it. -/
def runCases (r : Report) : List Case → Except StateError Report
  | [] => .ok r
  | c :: rest =>
    match c.run with
    | .ok outcome => (r.record outcome).runCases rest
    | .error why => .error why

end Report

/-- The opcode that a file is named after: the file name up to its last dot is a
hexadecimal byte. -/
def opcodeOf? (path : String) : Option UInt8 := do
  let stem ← Path.stem? path
  match Text.number 16 256 stem.toList with
  | .ok n => some (.ofNat n)
  | .error _ => none

/-- The opcodes that this core defines differently: BRK and STP end a program, WAI pauses it, and
three bytes carry the debugging instructions. -/
def ownOpcodes : List UInt8 := [0x00, 0x02, 0x03, 0x13, 0xCB, 0xDB]

/-- Whether the cases of a file are left out. -/
def isSkipped (path : String) : Bool :=
  match opcodeOf? path with
  | some opcode => ownOpcodes.contains opcode || (OpcodeTable.standard.get? opcode).isNone
  | none => false

end Core65C02.Conformance
