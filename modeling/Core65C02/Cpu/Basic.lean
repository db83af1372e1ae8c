import Core65C02.Cpu.Operation
import Core65C02.Memory
import Core65C02.Opcode.Descriptor
import Core65C02.Text.Hex

/-!
# The processor

Registers, flags, memory and counters of a 65C02, with the operations on them that the
instructions are made of. Writing A, X or Y derives Zero and Negative from the new value; writing
the stack pointer does not. The stack is page one, and the stack pointer wraps within it.
-/

namespace Core65C02

/-- What the execution of one instruction leads to. -/
inductive StepResult
  /-- The next instruction can be executed. -/
  | proceed
  /-- Control goes to whoever runs the program. -/
  | pause
  /-- The program has ended. -/
  | finished
deriving DecidableEq

/-- An instruction that was fetched, with the cycles it took beyond its base cost. -/
structure Instruction where
  /-- What is fixed about the opcode. -/
  descriptor : Descriptor
  /-- The address of the opcode. -/
  address : UInt16
  /-- The cycles charged for page crossings, taken branches and decimal mode. -/
  extraCycles : UInt8
deriving DecidableEq

/-- The cycles an instruction took. -/
def Instruction.cycles (i : Instruction) : Nat := i.descriptor.cycles.toNat + i.extraCycles.toNat

/-- The state of the processor. -/
structure Cpu where
  /-- The accumulator. -/
  a : UInt8 := 0
  /-- The X index register. -/
  x : UInt8 := 0
  /-- The Y index register. -/
  y : UInt8 := 0
  /-- The program counter. -/
  pc : UInt16 := 0
  /-- The stack pointer, an offset into page one. -/
  s : UInt8 := 0xFF
  /-- The flags. -/
  status : StatusFlags := {}
  /-- The address space. -/
  memory : Memory := .zero
  /-- Whether the program has ended. -/
  halted : Bool := false
  /-- The operation of each mnemonic. -/
  dispatch : Dispatch := .standard
  /-- The instruction that was fetched last since the reset. -/
  last : Option Instruction := none
  /-- The cycles of all instructions executed since the reset. -/
  totalCycles : Nat := 0

namespace Cpu

instance : Inhabited Cpu := ⟨{}⟩

/-- Clears registers, flags and counters and points PC at `start`. Memory and dispatch stay. -/
def reset (c : Cpu) (start : UInt16) : Cpu :=
  { c with
    a := 0, x := 0, y := 0, s := 0xFF, status := {}, pc := start,
    halted := false, last := none, totalCycles := 0 }

/-- Copies a program to `base`, as far as it fits, and resets with PC there. -/
def loadProgram (c : Cpu) (program : List UInt8) (base : UInt16) : Cpu :=
  { c with memory := c.memory.load program base }.reset base

/-- The value of a register. -/
def register (c : Cpu) : Register → UInt8
  | .a => c.a
  | .x => c.x
  | .y => c.y
  | .s => c.s

/-- Gives a register a value. For A, X and Y this derives Zero and Negative. -/
def setRegister (c : Cpu) (r : Register) (value : UInt8) : Cpu :=
  match r with
  | .a => { c with a := value, status := c.status.ofValue value }
  | .x => { c with x := value, status := c.status.ofValue value }
  | .y => { c with y := value, status := c.status.ofValue value }
  | .s => { c with s := value }

/-- Puts a byte into memory. -/
def store (c : Cpu) (address : UInt16) (value : UInt8) : Cpu :=
  { c with memory := c.memory.write address value }

/-- The address in page one that a stack pointer stands for. -/
def stackAddress (s : UInt8) : UInt16 := 0x0100 + s.toUInt16

/-- Puts a byte on the stack. -/
def push (c : Cpu) (value : UInt8) : Cpu :=
  { c with memory := c.memory.write (stackAddress c.s) value, s := c.s - 1 }

/-- The byte on top of the stack. -/
def top (c : Cpu) : UInt8 := c.memory.read (stackAddress (c.s + 1))

/-- Takes the top byte off the stack. -/
def drop (c : Cpu) : Cpu := { c with s := c.s + 1 }

/-- Takes the top byte off the stack and gives it. -/
def pop (c : Cpu) : UInt8 × Cpu := (c.top, c.drop)

/-- Puts a word on the stack, its high byte first. -/
def pushWord (c : Cpu) (value : UInt16) : Cpu :=
  (c.push (value >>> 8).toUInt8).push value.toUInt8

/-- Takes the top word off the stack, its low byte first, and gives it. -/
def popWord (c : Cpu) : UInt16 × Cpu :=
  let (low, c) := c.pop
  let (high, c) := c.pop
  ((high.toUInt16 <<< 8) ||| low.toUInt16, c)

/-- Charges cycles to the instruction that is executed. They add up to 255 at most. -/
def charge (c : Cpu) (cycles : UInt8) : Cpu :=
  { c with last := c.last.map fun i =>
      { i with extraCycles := .ofNat (min 0xFF (i.extraCycles.toNat + cycles.toNat)) } }

/-- The status byte that is pushed: Break and the unused bit are set in it. -/
def pushedStatus (c : Cpu) : UInt8 := c.status.pack ||| Flag.breakCommand.mask ||| unusedMask

/-- The address of the last instruction, or PC if there is none. -/
def instructionAddress (c : Cpu) : UInt16 :=
  match c.last with
  | some i => i.address
  | none => c.pc

/-- The registers on one line, such as `PC=0600 A=42 X=00 Y=00 S=FF P=00`. -/
def registerSummary (c : Cpu) : String :=
  "PC=" ++ Hex.address c.pc ++ " A=" ++ Hex.byte c.a ++ " X=" ++ Hex.byte c.x ++
  " Y=" ++ Hex.byte c.y ++ " S=" ++ Hex.byte c.s ++ " P=" ++ Hex.byte c.status.pack

end Cpu

end Core65C02
