import Core65C02.Cpu.Basic
import Core65C02.Opcode.Standard

/-!
# Metrics

Counters of what a run did, and their exposition as text: each family with a help line and a type
line, families and labels in alphabetical order, and only those labelled samples that were counted
at least once.
-/

namespace Core65C02

/-- Why a run paused. -/
inductive PauseReason
  /-- The program asked for it. -/
  | breakpoint
  /-- The run pauses after every step. -/
  | singleStep
deriving DecidableEq

/-- The label of a reason. -/
def PauseReason.label : PauseReason → String
  | breakpoint => "breakpoint"
  | singleStep => "single_step"

/-- The counters of a run. -/
structure Metrics where
  /-- How often an instruction with each opcode was executed. -/
  executed : Vector Nat 256 := Vector.replicate 256 0
  /-- The cycles of the executed instructions. -/
  cycles : Nat := 0
  /-- How often the run paused because the program asked for it. -/
  breakpoints : Nat := 0
  /-- How often the run paused because it pauses after every step. -/
  singleSteps : Nat := 0
  /-- How many programs were loaded. -/
  programsLoaded : Nat := 0
deriving DecidableEq

namespace Metrics

instance : Inhabited Metrics := ⟨{}⟩

/-- How often an instruction with an opcode was executed. -/
def count (m : Metrics) (opcode : UInt8) : Nat :=
  have h : opcode.toNat < 256 := opcode.toNat_lt
  m.executed[opcode.toNat]

/-- Counts an executed instruction. -/
def recordInstruction (m : Metrics) (i : Instruction) : Metrics :=
  have h : i.descriptor.opcode.toNat < 256 := i.descriptor.opcode.toNat_lt
  { m with
    executed := m.executed.set i.descriptor.opcode.toNat (m.count i.descriptor.opcode + 1)
    cycles := m.cycles + i.cycles }

/-- How often the run paused. -/
def pauses (m : Metrics) : PauseReason → Nat
  | .breakpoint => m.breakpoints
  | .singleStep => m.singleSteps

/-- Counts a pause. -/
def recordPause (m : Metrics) : PauseReason → Metrics
  | .breakpoint => { m with breakpoints := m.breakpoints + 1 }
  | .singleStep => { m with singleSteps := m.singleSteps + 1 }

/-- Counts a loaded program. -/
def recordProgramLoad (m : Metrics) : Metrics := { m with programsLoaded := m.programsLoaded + 1 }

/-- A family of samples: nothing if there is no sample. -/
def family (name help type : String) (samples : List (String × Nat)) : List String :=
  if samples.isEmpty then []
  else
    ["# HELP " ++ name ++ " " ++ help, "# TYPE " ++ name ++ " " ++ type] ++
    samples.map fun (sample, n) => sample ++ " " ++ toString n

/-- A sample with one label. -/
def labelled (name label value : String) : String :=
  name ++ "\x7b" ++ label ++ "=\"" ++ value ++ "\"\x7d"

/-- The opcodes that were executed, with the names of their instructions, by name and opcode. -/
def executedOpcodes (m : Metrics) : List (String × UInt8 × Nat) :=
  let rows := OpcodeTable.standard.toList.map fun d =>
    (d.mnemonic.name, d.opcode, m.count d.opcode)
  (rows.filter fun row => row.2.2 != 0).mergeSort fun p q => p.1 ≤ q.1

/-- The sample of an opcode. -/
def opcodeSample (row : String × UInt8 × Nat) : String × Nat :=
  ("cpu_instructions_total\x7bmnemonic=\"" ++ row.1 ++ "\",opcode=\"0x" ++ Hex.byte row.2.1 ++
    "\"\x7d", row.2.2)

/-- The names that occur in a list sorted by name, each with the sum of its numbers. -/
def sums : List (String × UInt8 × Nat) → List (String × Nat)
  | [] => []
  | (name, _, n) :: rest =>
    match sums rest with
    | (other, total) :: later =>
      if name = other then (name, n + total) :: later else (name, n) :: (other, total) :: later
    | [] => [(name, n)]

/-- The exposition. Durations are not measured: of their histogram only the counts are given. -/
def expose (m : Metrics) : List String :=
  let reasons := [PauseReason.breakpoint, .singleStep].filter fun r => m.pauses r != 0
  family "controller_pauses_total" "Total number of execution pauses" "counter"
    (reasons.map fun r => (labelled "controller_pauses_total" "reason" r.label, m.pauses r)) ++
  family "cpu_cycles_total" "Total number of CPU cycles executed" "counter"
    [("cpu_cycles_total", m.cycles)] ++
  family "cpu_instructions_total" "Total number of CPU instructions executed by opcode" "counter"
    (m.executedOpcodes.map opcodeSample) ++
  family "instruction_duration_seconds" "Time spent executing instructions" "histogram"
    ((sums m.executedOpcodes).map fun (name, n) =>
      (labelled "instruction_duration_seconds_count" "mnemonic" name, n)) ++
  family "programs_loaded_total" "Total number of programs loaded" "counter"
    [("programs_loaded_total", m.programsLoaded)]

end Metrics

end Core65C02
