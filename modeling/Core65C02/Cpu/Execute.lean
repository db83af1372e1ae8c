import Core65C02.Cpu.Arithmetic
import Core65C02.Cpu.Operand

/-!
# Executing one operation

What an operation does to a processor whose PC is past the opcode: it takes its operands, which
moves PC on, charges the cycles beyond the base cost, and takes effect. An operand that the
operation cannot work on is a fault, and a fault leaves the processor as it is at that moment.
-/

namespace Core65C02

/-- A processor in the middle of a step, with the reports that the step has made. -/
structure Execution where
  /-- The processor. -/
  cpu : Cpu
  /-- The reports so far. -/
  reports : List String := []

/-- A piece of the execution of an instruction. -/
abbrev Action := EStateM Fault Execution

namespace Action

/-- Looks at the processor. -/
@[inline]
def inspect {α : Type} (f : Cpu → α) : Action α := fun e => .ok (f e.cpu) e

/-- Changes the processor. -/
@[inline]
def update (f : Cpu → Cpu) : Action Unit := fun ⟨cpu, reports⟩ => .ok () ⟨f cpu, reports⟩

/-- Takes something out of the processor. -/
@[inline]
def take {α : Type} (f : Cpu → α × Cpu) : Action α := fun ⟨cpu, reports⟩ =>
  match f cpu with
  | (a, cpu) => .ok a ⟨cpu, reports⟩

/-- Takes something out of the processor that may not be there. -/
@[inline]
def attempt {α : Type} (f : Cpu → Except Fault α × Cpu) : Action α := fun ⟨cpu, reports⟩ =>
  match f cpu with
  | (.ok a, cpu) => .ok a ⟨cpu, reports⟩
  | (.error fault, cpu) => .error fault ⟨cpu, reports⟩

/-- Makes a report. -/
@[inline]
def report (text : String) : Action Unit := fun ⟨cpu, reports⟩ => .ok () ⟨cpu, reports ++ [text]⟩

/-- Charges cycles beyond the base cost. -/
@[inline]
def charge (cycles : UInt8) : Action Unit := update (·.charge cycles)

/-- Charges a cycle if indexing crossed a page. -/
def chargeCrossing (pageCrossed : Bool) : Action Unit :=
  if pageCrossed then charge 1 else pure ()

/-- The byte of the operand in a mode; indexing into another page costs a cycle. -/
def readValue (mode : AddressingMode) : Action UInt8 := do
  let (value, pageCrossed) ← attempt (·.resolveValue mode)
  chargeCrossing pageCrossed
  return value

/-- The operand in a mode, if a byte can be written back to it. -/
def resolvePlace (mode : AddressingMode) : Action Resolved := do
  let r ← attempt (·.resolveOperand mode)
  match r.operand with
  | .immediate _ => throw (.unsupportedAddressingMode mode (← inspect (·.instructionAddress)))
  | _ => return r

/-- Continues at `target` if the branch is taken, which costs a cycle, and one more if that leads to
another page. -/
def branchTo (target : UInt16) (crossed taken : Bool) : Action Unit := do
  if taken then
    update ({ · with pc := target })
    charge (if crossed then 2 else 1)

end Action

namespace Cpu

/-- Whether a branch condition holds. -/
def holds (c : Cpu) : Condition → Bool
  | .always => true
  | .flag f state => c.status.test f == state

/-- Puts the outcome of an addition or a subtraction into the accumulator and the flags. -/
def accumulate (c : Cpu) (sum : Sum) : Cpu :=
  { c with status := { c.status with carry := sum.carry, overflow := sum.overflow } }.setRegister .a
    sum.value

/-- Sets Carry, Zero and Negative as a subtraction of `value` from a register would. -/
def compareWith (c : Cpu) (register value : UInt8) : Cpu :=
  { c with status := { c.status with carry := value ≤ register }.ofValue (register - value) }

/-- Sets Zero from the bits of a byte that the accumulator selects. -/
def testSelected (c : Cpu) (value : UInt8) : Cpu :=
  { c with status := { c.status with zero := c.a &&& value == 0 } }

end Cpu

/-- Adds to the accumulator or subtracts from it, by decimal digits at the cost of a cycle if the
flag is set that asks for it. -/
def Action.addUp (decimal binary : UInt8 → UInt8 → Bool → Sum) (value : UInt8) : Action Unit := do
  if ← inspect (·.status.decimalMode) then
    update fun c => c.accumulate (decimal c.a value c.status.carry)
    charge 1
  else update fun c => c.accumulate (binary c.a value c.status.carry)

/-- A byte whose only set bit is bit `index`. -/
def bitMask (index : UInt8) : UInt8 := 1 <<< index

/-- A byte with the bits of a mask set or cleared. -/
def assignBits (value mask : UInt8) (state : Bool) : UInt8 :=
  if state then value ||| mask else value &&& ~~~mask

namespace Operation

/-- The line of a memory dump for one byte. -/
def dumpLine (entry : UInt16 × UInt8) : String :=
  "\n[" ++ Hex.address entry.1 ++ "] = " ++ Hex.byte entry.2

/-- The report of all bytes of memory other than zero. -/
def dumpText (m : Memory) : String :=
  "Memory Dump:" ++ String.join (m.nonZero.map dumpLine)

/-- The report of the registers under a number. -/
def registersText (number : UInt8) (c : Cpu) : String :=
  "Register Dump #" ++ toString number.toNat ++ "\n" ++ c.registerSummary

open Core65C02.Action

/-- Executes an operation with the operands of a descriptor. -/
def execute (op : Operation) (d : Descriptor) : Action StepResult := do
  match op with
  | add =>
    let value ← readValue d.mode
    addUp addDecimal addBinary value
    return .proceed
  | subtract =>
    let value ← readValue d.mode
    addUp subtractDecimal subtractBinary value
    return .proceed
  | logic f =>
    let value ← readValue d.mode
    update fun c => c.setRegister .a (f.apply c.a value)
    return .proceed
  | testBits =>
    let value ← readValue d.mode
    update (·.testSelected value)
    if d.mode ≠ .immediate then
      update fun c => { c with status := { c.status with
        negative := isNegative value, overflow := value &&& 0x40 != 0 } }
    return .proceed
  | testAndAssignBits state =>
    let (address, _) ← attempt (·.resolveAddress d.mode)
    let value ← inspect (·.memory.read address)
    update (·.testSelected value)
    update fun c => c.store address (assignBits value c.a state)
    return .proceed
  | modify f =>
    let place ← resolvePlace d.mode
    chargeCrossing (f.paysForPageCrossing && place.pageCrossed)
    let old ← inspect (·.operandValue place.operand)
    let carry ← inspect (·.status.carry)
    let new := f.value carry old
    update fun c => { c with status := { c.status with carry := f.carry carry old } }
    update (·.writeOperand place.operand new)
    update fun c => { c with status := c.status.ofValue new }
    return .proceed
  | count r up =>
    update fun c => c.setRegister r (if up then c.register r + 1 else c.register r - 1)
    return .proceed
  | compare r =>
    let value ← readValue d.mode
    update fun c => c.compareWith (c.register r) value
    return .proceed
  | load r =>
    let value ← readValue d.mode
    update (·.setRegister r value)
    return .proceed
  | store r =>
    let (address, _) ← attempt (·.resolveAddress d.mode)
    update fun c => c.store address (c.register r)
    return .proceed
  | storeZero =>
    let (address, _) ← attempt (·.resolveAddress d.mode)
    update (·.store address 0)
    return .proceed
  | assignBit state =>
    let (address, _) ← attempt (·.resolveAddress d.mode)
    let value ← inspect (·.memory.read address)
    update (·.store address (assignBits value (bitMask d.bitIndex) state))
    return .proceed
  | branch condition =>
    let taken ← inspect (·.holds condition)
    let (target, crossed) ← attempt (·.resolveAddress d.mode)
    branchTo target crossed taken
    return .proceed
  | branchOnBit state =>
    let (address, _) ← attempt (·.resolveAddress d.mode)
    let value ← inspect (·.memory.read address)
    let (target, crossed) ← attempt (·.resolveAddress (d.secondMode.getD .relative))
    branchTo target crossed ((value &&& bitMask d.bitIndex != 0) == state)
    return .proceed
  | jump =>
    let (target, _) ← attempt (·.resolveAddress d.mode)
    update ({ · with pc := target })
    return .proceed
  | call =>
    let (target, _) ← attempt (·.resolveAddress d.mode)
    -- the return address is that of the last byte of the call
    update fun c => c.pushWord (c.pc - 1)
    update ({ · with pc := target })
    return .proceed
  | returnFromCall =>
    let address ← take (·.popWord)
    update ({ · with pc := address + 1 })
    return .proceed
  | returnFromInterrupt =>
    let p ← take (·.pop)
    update ({ · with status := .unpack p })
    let address ← take (·.popWord)
    update ({ · with pc := address })
    return .proceed
  | push r =>
    update fun c => c.push (c.register r)
    return .proceed
  | pushStatus =>
    update fun c => c.push c.pushedStatus
    return .proceed
  | pull r =>
    let value ← take (·.pop)
    update (·.setRegister r value)
    return .proceed
  | pullStatus =>
    let p ← take (·.pop)
    update ({ · with status := .unpack p })
    return .proceed
  | transfer source target =>
    update fun c => c.setRegister target (c.register source)
    return .proceed
  | putFlag f value =>
    update fun c => { c with status := c.status.put value f }
    return .proceed
  | idle => return .proceed
  | halt =>
    update ({ · with halted := true })
    return .finished
  | pause => return .pause
  | dumpRegisters =>
    let (number, _) ← attempt (·.resolveValue d.mode)
    report (← inspect (registersText number))
    return .proceed
  | dumpMemory =>
    report (← inspect fun c => dumpText c.memory)
    return .proceed

end Operation

end Core65C02
