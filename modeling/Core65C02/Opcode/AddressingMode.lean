/-!
# Addressing modes

How the bytes after an opcode say what the instruction works on.
-/

namespace Core65C02

/-- The fifteen addressing modes of the 65C02. -/
inductive AddressingMode
  /-- No operand. -/
  | implied
  /-- The accumulator. -/
  | accumulator
  /-- The byte after the opcode. -/
  | immediate
  /-- The address after the opcode. -/
  | absolute
  /-- The address after the opcode, plus X. -/
  | absoluteX
  /-- The address after the opcode, plus Y. -/
  | absoluteY
  /-- The address kept at the address after the opcode. -/
  | absoluteIndirect
  /-- The address kept at the address after the opcode plus X. -/
  | absoluteIndirectX
  /-- A signed distance from the instruction that follows. -/
  | relative
  /-- A location in page zero. -/
  | zeroPage
  /-- A location in page zero, plus X within that page. -/
  | zeroPageX
  /-- A location in page zero, plus Y within that page. -/
  | zeroPageY
  /-- The address kept at a location in page zero. -/
  | zeroPageIndirect
  /-- The address kept in page zero at a location plus X. -/
  | zeroPageIndirectX
  /-- The address kept at a location in page zero, plus Y. -/
  | zeroPageIndirectY
deriving DecidableEq

namespace AddressingMode

/-- The modes in the order in which they are listed. -/
def all : List AddressingMode :=
  [implied, accumulator, immediate, absolute, absoluteX, absoluteY, absoluteIndirect,
   absoluteIndirectX, relative, zeroPage, zeroPageX, zeroPageY, zeroPageIndirect,
   zeroPageIndirectX, zeroPageIndirectY]

/-- The name of a mode in listings and messages. -/
def name : AddressingMode → String
  | implied => "Implied"
  | accumulator => "Accumulator"
  | immediate => "Immediate"
  | absolute => "Absolute"
  | absoluteX => "AbsoluteIndexedX"
  | absoluteY => "AbsoluteIndexedY"
  | absoluteIndirect => "AbsoluteIndirect"
  | absoluteIndirectX => "AbsoluteIndexedIndirectX"
  | relative => "ProgramCounterRelative"
  | zeroPage => "ZeroPage"
  | zeroPageX => "ZeroPageIndexedX"
  | zeroPageY => "ZeroPageIndexedY"
  | zeroPageIndirect => "ZeroPageIndirect"
  | zeroPageIndirectX => "ZeroPageIndexedIndirectX"
  | zeroPageIndirectY => "ZeroPageIndirectIndexedY"

/-- The mode with a given name. -/
def ofName? (text : String) : Option AddressingMode := all.find? fun mode => mode.name == text

/-- The number of operand bytes after the opcode. -/
def operandLength : AddressingMode → UInt8
  | implied | accumulator => 0
  | immediate | relative | zeroPage | zeroPageX | zeroPageY | zeroPageIndirect
  | zeroPageIndirectX | zeroPageIndirectY => 1
  | absolute | absoluteX | absoluteY | absoluteIndirect | absoluteIndirectX => 2

end AddressingMode

end Core65C02
