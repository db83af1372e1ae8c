import Core65C02.Opcode.AddressingMode
import Core65C02.Opcode.Mnemonic

/-!
# Opcode descriptors

What is fixed about one opcode byte: its mnemonic, where its operands are, its length and its base
cost.
-/

namespace Core65C02

/-- The static description of one opcode. -/
structure Descriptor where
  /-- The opcode byte. -/
  opcode : UInt8
  /-- The name of the instruction. -/
  mnemonic : Mnemonic
  /-- The addressing mode of the operand. -/
  mode : AddressingMode
  /-- The addressing mode of a second operand, which only the bit branches have. -/
  secondMode : Option AddressingMode
  /-- The length of the instruction with its opcode. -/
  bytes : UInt8
  /-- The cycles before penalties for page crossings, branches and decimal mode. -/
  cycles : UInt8
deriving DecidableEq

namespace Descriptor

/-- An instruction with at most one operand; its length follows from its mode. -/
def single (opcode : UInt8) (mnemonic : Mnemonic) (mode : AddressingMode) (cycles : UInt8) :
    Descriptor :=
  ⟨opcode, mnemonic, mode, none, 1 + mode.operandLength, cycles⟩

/-- An instruction with two operands; its length follows from both modes. -/
def dual (opcode : UInt8) (mnemonic : Mnemonic) (mode secondMode : AddressingMode)
    (cycles : UInt8) : Descriptor :=
  ⟨opcode, mnemonic, mode, some secondMode, 1 + mode.operandLength + secondMode.operandLength,
    cycles⟩

/-- An instruction that branches on a bit of a page-zero location. -/
def bitBranch (opcode : UInt8) (mnemonic : Mnemonic) : Descriptor :=
  dual opcode mnemonic .zeroPage .relative 5

/-- The bit that a bit instruction works on, which its opcode carries in bits 4 to 6. -/
def bitIndex (d : Descriptor) : UInt8 := (d.opcode >>> 4) &&& 0x07

end Descriptor

end Core65C02
