import Core65C02.Opcode.Mnemonic
import Core65C02.Status

/-!
# Operations

What an instruction does, apart from where its operands are. Mnemonics that differ only in a
register, a flag or a function share one parametrised operation, and a dispatch table assigns
operations to mnemonics.
-/

namespace Core65C02

/-- The 8-bit registers. -/
inductive Register
  | a | x | y
  /-- The stack pointer. -/
  | s
deriving DecidableEq

/-- The bitwise functions of the accumulator and an operand. -/
inductive LogicFunction
  | conjunction | disjunction | exclusiveOr
deriving DecidableEq

/-- The functions of one byte that are written back to where the byte was. -/
inductive Modification
  | shiftLeft | shiftRight | rotateLeft | rotateRight | increment | decrement
deriving DecidableEq

/-- When a branch is taken. -/
inductive Condition
  | always
  /-- When the flag is in the given state. -/
  | flag (flag : Flag) (state : Bool)
deriving DecidableEq

/-- The operations that instructions perform. -/
inductive Operation
  /-- Adds the operand and the carry to the accumulator. -/
  | add
  /-- Subtracts the operand and the missing carry from the accumulator. -/
  | subtract
  /-- Combines the accumulator with the operand bit by bit. -/
  | logic (function : LogicFunction)
  /-- Sets flags from the operand and from its bits that the accumulator selects. -/
  | testBits
  /-- Tests the bits that the accumulator selects and sets or clears them in memory. -/
  | testAndAssignBits (value : Bool)
  /-- Replaces the accumulator or a byte of memory by a function of it. -/
  | modify (function : Modification)
  /-- Adds one to a register, or subtracts it. -/
  | count (register : Register) (up : Bool)
  /-- Sets flags as a subtraction from a register would. -/
  | compare (register : Register)
  /-- Puts the operand into a register. -/
  | load (register : Register)
  /-- Puts a register into memory. -/
  | store (register : Register)
  /-- Puts zero into memory. -/
  | storeZero
  /-- Sets or clears the bit of the opcode in memory. -/
  | assignBit (value : Bool)
  /-- Continues at the operand if the condition holds. -/
  | branch (condition : Condition)
  /-- Continues at the second operand if the bit of the opcode is in the given state. -/
  | branchOnBit (state : Bool)
  /-- Continues at the operand. -/
  | jump
  /-- Continues at the operand and pushes where to return to. -/
  | call
  /-- Continues after the call whose return address is pulled. -/
  | returnFromCall
  /-- Pulls the status, and the address at which to continue. -/
  | returnFromInterrupt
  /-- Pushes a register. -/
  | push (register : Register)
  /-- Pushes the status. -/
  | pushStatus
  /-- Pulls a register. -/
  | pull (register : Register)
  /-- Pulls the status. -/
  | pullStatus
  /-- Copies one register to another. -/
  | transfer (source target : Register)
  /-- Gives a flag a state. -/
  | putFlag (flag : Flag) (value : Bool)
  /-- Does nothing. -/
  | idle
  /-- Ends the program. -/
  | halt
  /-- Hands control to whoever runs the program. -/
  | pause
  /-- Reports the registers under the number of the operand. -/
  | dumpRegisters
  /-- Reports the bytes of memory other than zero. -/
  | dumpMemory
deriving DecidableEq

namespace Operation

/-- What an operation needs of its operand. -/
inductive Access
  /-- No operand is looked at. -/
  | nothing
  /-- A byte: the accumulator, a literal or a byte of memory. -/
  | value
  /-- A byte that can be written back: the accumulator or a byte of memory. -/
  | place
  /-- An address. -/
  | address
  /-- An address, and a second operand that is an address too. -/
  | addressAndTarget
deriving DecidableEq

/-- What each operation needs of its operand. -/
def access : Operation → Access
  | add | subtract | logic _ | testBits | compare _ | load _ | dumpRegisters => .value
  | modify _ => .place
  | testAndAssignBits _ | store _ | storeZero | assignBit _ | branch _ | jump | call => .address
  | branchOnBit _ => .addressAndTarget
  | count .. | returnFromCall | returnFromInterrupt | push _ | pushStatus | pull _ | pullStatus
  | transfer .. | putFlag .. | idle | halt | pause | dumpMemory => .nothing

end Operation

/-- What an instruction of the standard set does. -/
def Mnemonic.operation : Mnemonic → Operation
  | adc => .add
  | and => .logic .conjunction
  | asl => .modify .shiftLeft
  | bbr _ => .branchOnBit false
  | bbs _ => .branchOnBit true
  | bcc => .branch (.flag .carry false)
  | bcs => .branch (.flag .carry true)
  | beq => .branch (.flag .zero true)
  | bit => .testBits
  | bmi => .branch (.flag .negative true)
  | bne => .branch (.flag .zero false)
  | bpl => .branch (.flag .negative false)
  | bra => .branch .always
  | brk => .halt
  | bvc => .branch (.flag .overflow false)
  | bvs => .branch (.flag .overflow true)
  | clc => .putFlag .carry false
  | cld => .putFlag .decimalMode false
  | cli => .putFlag .interruptDisable false
  | clv => .putFlag .overflow false
  | cmp => .compare .a
  | cpx => .compare .x
  | cpy => .compare .y
  | dec => .modify .decrement
  | dex => .count .x false
  | dey => .count .y false
  | eor => .logic .exclusiveOr
  | inc => .modify .increment
  | inx => .count .x true
  | iny => .count .y true
  | jmp => .jump
  | jsr => .call
  | lda => .load .a
  | ldx => .load .x
  | ldy => .load .y
  | lsr => .modify .shiftRight
  | nop => .idle
  | ora => .logic .disjunction
  | pha => .push .a
  | php => .pushStatus
  | phx => .push .x
  | phy => .push .y
  | pla => .pull .a
  | plp => .pullStatus
  | plx => .pull .x
  | ply => .pull .y
  | rmb _ => .assignBit false
  | rol => .modify .rotateLeft
  | ror => .modify .rotateRight
  | rti => .returnFromInterrupt
  | rts => .returnFromCall
  | sbc => .subtract
  | sec => .putFlag .carry true
  | sed => .putFlag .decimalMode true
  | sei => .putFlag .interruptDisable true
  | smb _ => .assignBit true
  | sta => .store .a
  | stp => .halt
  | stx => .store .x
  | sty => .store .y
  | stz => .storeZero
  | tax => .transfer .a .x
  | tay => .transfer .a .y
  | trb => .testAndAssignBits false
  | tsb => .testAndAssignBits true
  | tsx => .transfer .s .x
  | txa => .transfer .x .a
  | txs => .transfer .x .s
  | tya => .transfer .y .a
  | wai => .pause
  | dbp => .pause
  | drs => .dumpRegisters
  | dmp => .dumpMemory

/-- The operation that a CPU performs for each mnemonic, if it has one. -/
def Dispatch := Mnemonic → Option Operation

namespace Dispatch

/-- The dispatch without operations. -/
def empty : Dispatch := fun _ => none

/-- The dispatch that gives every mnemonic its own operation. -/
def standard : Dispatch := fun m => some m.operation

instance : Inhabited Dispatch := ⟨empty⟩

/-- Takes the operation of a mnemonic away. -/
def erase (table : Dispatch) (m : Mnemonic) : Dispatch :=
  fun other => if other = m then none else table other

/-- Gives a mnemonic the standard operation of another. -/
def assign (table : Dispatch) (m source : Mnemonic) : Dispatch :=
  fun other => if other = m then some source.operation else table other

end Dispatch

end Core65C02
