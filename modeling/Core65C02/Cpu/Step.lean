import Core65C02.Cpu.Execute
import Core65C02.Opcode.Standard

/-!
# One step

Fetch, decode, execute. A step that fails puts PC back to the opcode, so that it can be tried again,
and on a processor whose program has ended a step changes nothing at all.
-/

namespace Core65C02

/-- What one step leads to: the processor after it, how it went, and what it reported. -/
structure StepOutcome where
  /-- The processor after the step. -/
  cpu : Cpu
  /-- How the step went. -/
  result : Except Fault StepResult
  /-- What the instruction reported. -/
  report : List String := []

namespace Cpu

/-- Counts the cycles of the instruction that was executed. -/
def countCycles (c : Cpu) : Cpu :=
  match c.last with
  | some i => { c with totalCycles := c.totalCycles + i.cycles }
  | none => c

/-- Executes the instruction at PC. PC wraps from the last address to the first, for the opcode and
for the operand bytes. -/
def step (c : Cpu) : StepOutcome :=
  if c.halted then ⟨c, .ok .finished, []⟩
  else
    let address := c.pc
    let opcode := c.memory.read address
    let c := { c with pc := address + 1 }
    match OpcodeTable.standard.lookup opcode address with
    | .error fault => ⟨{ c with pc := address }, .error fault, []⟩
    | .ok d =>
      let c := { c with last := some ⟨d, address, 0⟩ }
      match c.dispatch d.mnemonic with
      | none =>
        ⟨{ c with pc := address }, .error (.unsupportedInstruction opcode address), []⟩
      | some op =>
        match op.execute d ⟨c, []⟩ with
        | .ok result e => ⟨e.cpu.countCycles, .ok result, e.reports⟩
        | .error fault e => ⟨{ e.cpu with pc := address }, .error fault, e.reports⟩

end Cpu

end Core65C02
