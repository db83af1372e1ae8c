import Core65C02.Cpu.Step
import Core65C02.Snapshot.Basic

/-!
# Conformance cases

A case gives a state, the state one step later, and optionally the bus accesses of that step. It
passes when a step from the first state leads to the registers and the listed bytes of the second
one. The bus accesses are only counted, and a different number of cycles is reported but is no
failure.
-/

namespace Core65C02.Conformance

/-- An access to the bus. -/
structure BusAccess where
  /-- The address. -/
  address : Nat
  /-- The byte. -/
  value : Nat
  /-- The direction. -/
  kind : String
deriving DecidableEq, Inhabited

/-- A case of a suite. -/
structure Case where
  /-- What the case is called. -/
  name : String
  /-- The state before the step. -/
  initial : RawState
  /-- The state after the step. -/
  expected : RawState
  /-- The accesses of the step; none if they are not known. -/
  accesses : List BusAccess := []
deriving DecidableEq, Inhabited

/-- How a case went. -/
structure Outcome where
  /-- What the case is called. -/
  name : String
  /-- The components in which the state after the step differs from what is expected. -/
  mismatches : List String
  /-- The fault of the step, if it failed. -/
  fault : Option Fault
  /-- The number of accesses of the case, if they are known. -/
  expectedCycles : Option Nat
  /-- The cycles of the step, if it executed an instruction. -/
  actualCycles : Option Nat
deriving DecidableEq

namespace Outcome

/-- Whether the step led to what is expected. -/
def passed (o : Outcome) : Bool := o.fault.isNone && o.mismatches.isEmpty

/-- Whether the numbers of cycles agree, as far as they are known. -/
def cyclesMatch (o : Outcome) : Bool :=
  match o.expectedCycles, o.actualCycles with
  | some expected, some actual => expected == actual
  | _, _ => true

/-- The report of a case on one line. -/
def display (o : Outcome) : String :=
  if o.passed then o.name ++ ": ok"
  else
    let fault := match o.fault with
      | some fault => " " ++ fault.message
      | none => ""
    o.name ++ ":" ++ fault ++ String.join (o.mismatches.map fun m => " " ++ m ++ ";")

end Outcome

/-- Runs a case. Its states have to be valid; a fault of the step is a way for it to go. Accesses are
counted in 32 bits. -/
def Case.run (c : Case) : Except StateError Outcome := do
  let initial ← c.initial.validate
  let expected ← c.expected.validate
  let after := (Cpu.ofSnapshot initial).step
  let expectedCycles :=
    if c.accesses.isEmpty then none else some (c.accesses.length % (1 <<< 32))
  match after.result with
  | .ok _ =>
    return { name := c.name, mismatches := expected.diff after.cpu.snapshot, fault := none
             expectedCycles, actualCycles := after.cpu.last.map Instruction.cycles }
  | .error fault =>
    return { name := c.name, mismatches := [], fault := some fault
             expectedCycles, actualCycles := none }

end Core65C02.Conformance
