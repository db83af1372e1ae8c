import Core65C02.Cpu.Basic
import Core65C02.Fault

/-!
# Operands

What the bytes after an opcode refer to in each addressing mode, and whether computing it crossed a
page. A crossing is counted from the address before indexing or, for relative operands, from the
instruction that follows.
-/

namespace Core65C02

/-- What an operand refers to. -/
inductive Operand
  /-- The accumulator. -/
  | accumulator
  /-- A byte of the instruction itself. -/
  | immediate (value : UInt8)
  /-- A byte of memory. -/
  | address (address : UInt16)
deriving DecidableEq

/-- The address of an operand that is in memory. -/
def Operand.address? : Operand → Option UInt16
  | .address location => some location
  | _ => none

/-- An operand, and whether computing it crossed a page. -/
structure Resolved where
  /-- What is referred to. -/
  operand : Operand
  /-- Whether an index or a distance led to another page. -/
  pageCrossed : Bool
deriving DecidableEq

/-- Whether two addresses lie in different pages. -/
def pagesDiffer (a b : UInt16) : Bool := a &&& 0xFF00 != b &&& 0xFF00

/-- The address `distance` bytes on or, for a distance with bit 7 set, 256 less than that. -/
def relativeTarget (origin : UInt16) (distance : UInt8) : UInt16 :=
  origin + distance.toUInt16 - (if isNegative distance then 0x0100 else 0)

namespace Cpu

/-- The operand at `base + index`. -/
def indexed (base : UInt16) (index : UInt8) : Resolved :=
  let address := base + index.toUInt16
  ⟨.address address, pagesDiffer base address⟩

/-- Takes the byte at PC. -/
def fetchByte (c : Cpu) : UInt8 × Cpu := (c.memory.read c.pc, { c with pc := c.pc + 1 })

/-- Takes the word at PC, its low byte first. -/
def fetchWord (c : Cpu) : UInt16 × Cpu :=
  let (low, c) := c.fetchByte
  let (high, c) := c.fetchByte
  ((high.toUInt16 <<< 8) ||| low.toUInt16, c)

/-- Finds what the bytes at PC refer to in an addressing mode, with the registers and the memory of
`c`, and moves PC past them. Only the implied mode refers to nothing. -/
def resolveOperand (c : Cpu) (mode : AddressingMode) : Except Fault Resolved × Cpu :=
  match mode with
  | .implied => (.error (.unsupportedAddressingMode mode c.instructionAddress), c)
  | .accumulator => (.ok ⟨.accumulator, false⟩, c)
  | .immediate =>
    let (value, c) := c.fetchByte
    (.ok ⟨.immediate value, false⟩, c)
  | .absolute =>
    let (address, c) := c.fetchWord
    (.ok ⟨.address address, false⟩, c)
  | .absoluteX =>
    let (base, c) := c.fetchWord
    (.ok (indexed base c.x), c)
  | .absoluteY =>
    let (base, c) := c.fetchWord
    (.ok (indexed base c.y), c)
  | .absoluteIndirect =>
    let (pointer, c) := c.fetchWord
    (.ok ⟨.address (c.memory.readWord pointer), false⟩, c)
  | .absoluteIndirectX =>
    let (pointer, c) := c.fetchWord
    (.ok ⟨.address (c.memory.readWord (pointer + c.x.toUInt16)), false⟩, c)
  | .relative =>
    let (distance, c) := c.fetchByte
    let target := relativeTarget c.pc distance
    (.ok ⟨.address target, pagesDiffer c.pc target⟩, c)
  | .zeroPage =>
    let (location, c) := c.fetchByte
    (.ok ⟨.address location.toUInt16, false⟩, c)
  | .zeroPageX =>
    let (location, c) := c.fetchByte
    (.ok ⟨.address (location + c.x).toUInt16, false⟩, c)
  | .zeroPageY =>
    let (location, c) := c.fetchByte
    (.ok ⟨.address (location + c.y).toUInt16, false⟩, c)
  | .zeroPageIndirect =>
    let (location, c) := c.fetchByte
    (.ok ⟨.address (c.memory.readZeroPageWord location), false⟩, c)
  | .zeroPageIndirectX =>
    let (location, c) := c.fetchByte
    (.ok ⟨.address (c.memory.readZeroPageWord (location + c.x)), false⟩, c)
  | .zeroPageIndirectY =>
    let (location, c) := c.fetchByte
    (.ok (indexed (c.memory.readZeroPageWord location) c.y), c)

/-- The byte that an operand stands for. -/
def operandValue (c : Cpu) : Operand → UInt8
  | .accumulator => c.a
  | .immediate value => value
  | .address address => c.memory.read address

/-- Writes through an operand. The accumulator derives Zero and Negative, memory does not, and a
byte of the instruction itself cannot be written. -/
def writeOperand (c : Cpu) (operand : Operand) (value : UInt8) : Cpu :=
  match operand with
  | .accumulator => c.setRegister .a value
  | .address address => c.store address value
  | .immediate _ => c

/-- Resolves an operand to the byte it stands for. -/
def resolveValue (c : Cpu) (mode : AddressingMode) : Except Fault (UInt8 × Bool) × Cpu :=
  match c.resolveOperand mode with
  | (.ok r, c) => (.ok (c.operandValue r.operand, r.pageCrossed), c)
  | (.error e, c) => (.error e, c)

/-- Resolves an operand to an address. An operand that has none is a fault, but its bytes are
consumed. -/
def resolveAddress (c : Cpu) (mode : AddressingMode) : Except Fault (UInt16 × Bool) × Cpu :=
  match c.resolveOperand mode with
  | (.ok r, c) =>
    match r.operand.address? with
    | some address => (.ok (address, r.pageCrossed), c)
    | none => (.error (.unsupportedAddressingMode mode c.instructionAddress), c)
  | (.error e, c) => (.error e, c)

end Cpu

end Core65C02
