import Core65C02.Opcode.AddressingMode
import Core65C02.Text.Hex

/-!
# Faults

The two ways in which an instruction cannot be executed. Each names the address of its opcode.
-/

namespace Core65C02

/-- Why an instruction could not be executed. -/
inductive Fault
  /-- The byte is no opcode, or its mnemonic has no operation. -/
  | unsupportedInstruction (opcode : UInt8) (pc : UInt16)
  /-- The operation cannot work on what the addressing mode refers to. -/
  | unsupportedAddressingMode (mode : AddressingMode) (pc : UInt16)
deriving DecidableEq

namespace Fault

/-- The wording of a fault. -/
def message : Fault → String
  | unsupportedInstruction opcode pc =>
    "unsupported instruction: opcode $" ++ Hex.byte opcode ++ " at PC $" ++ Hex.address pc
  | unsupportedAddressingMode mode pc =>
    "unsupported addressing mode " ++ mode.name ++ " at PC $" ++ Hex.address pc

/-- The address that a fault names. -/
def pc : Fault → UInt16
  | unsupportedInstruction _ pc => pc
  | unsupportedAddressingMode _ pc => pc

end Fault

end Core65C02
