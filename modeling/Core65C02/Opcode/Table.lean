import Core65C02.Fault
import Core65C02.Opcode.Descriptor

/-!
# Opcode tables

A table holds at most one descriptor for each opcode byte. It is built from a list in which a later
row for an opcode replaces an earlier one, and is then only looked up.
-/

namespace Core65C02

/-- At most one descriptor for each of the 256 opcode bytes. -/
structure OpcodeTable where
  /-- The descriptors by opcode. -/
  entries : Vector (Option Descriptor) 256

namespace OpcodeTable

/-- The table without descriptors. -/
def empty : OpcodeTable := ⟨Vector.replicate 256 none⟩

instance : Inhabited OpcodeTable := ⟨empty⟩

/-- Puts a descriptor in the place of its opcode. -/
def insert (table : OpcodeTable) (d : Descriptor) : OpcodeTable :=
  have h : d.opcode.toNat < 256 := d.opcode.toNat_lt
  ⟨table.entries.set d.opcode.toNat (some d)⟩

/-- The table of a list of rows, in which the last row for an opcode wins. -/
def ofList (rows : List Descriptor) : OpcodeTable := rows.foldl insert empty

/-- The descriptor of an opcode. -/
def get? (table : OpcodeTable) (opcode : UInt8) : Option Descriptor :=
  have h : opcode.toNat < 256 := opcode.toNat_lt
  table.entries[opcode.toNat]

/-- The descriptor of an opcode fetched from `pc`; a byte without one is a fault there. -/
def lookup (table : OpcodeTable) (opcode : UInt8) (pc : UInt16) : Except Fault Descriptor :=
  match table.get? opcode with
  | some d => .ok d
  | none => .error (.unsupportedInstruction opcode pc)

/-- The descriptors in ascending order of their opcodes. -/
def toList (table : OpcodeTable) : List Descriptor := table.entries.toList.filterMap id

/-- The descriptors of a mnemonic, in ascending order of their opcodes. -/
def byMnemonic (table : OpcodeTable) (m : Mnemonic) : List Descriptor :=
  table.toList.filter fun d => d.mnemonic == m

/-- The number of descriptors. -/
def length (table : OpcodeTable) : Nat := table.toList.length

/-- Whether the table has no descriptor. -/
def isEmpty (table : OpcodeTable) : Bool := table.length == 0

end OpcodeTable

end Core65C02
