import Core65C02.Cpu.Operation
import Core65C02.Opcode.Standard

/-!
# What the table holds

A lookup in a table finds the last row for an opcode, so whatever holds of every row of a list
holds of every descriptor that can be fetched. The facts about the standard rows that the proofs
about steps need are stated here, once for all rows: that the operation of a mnemonic finds the
operands it needs in the modes of the row, and that the row has the length which these modes take.
-/

namespace Core65C02

namespace OpcodeTable

/-- The row that was put in last is found under its opcode, and the others as before. -/
theorem get?_insert (table : OpcodeTable) (d : Descriptor) (opcode : UInt8) :
    (table.insert d).get? opcode = if d.opcode = opcode then some d else table.get? opcode := by
  have hopcode : d.opcode.toNat = opcode.toNat ↔ d.opcode = opcode := UInt8.toNat_inj
  simp [insert, get?, Vector.getElem_set, hopcode]

/-- The last row for an opcode wins. -/
theorem get?_ofList (rows : List Descriptor) (opcode : UInt8) :
    (ofList rows).get? opcode = rows.reverse.find? fun d => d.opcode == opcode := by
  have hfold (table : OpcodeTable) : (rows.foldl insert table).get? opcode =
      (rows.reverse.find? fun d => d.opcode == opcode).or (table.get? opcode) := by
    induction rows generalizing table with
    | nil => simp
    | cons d rows ih =>
      rw [List.foldl_cons, ih, get?_insert, List.reverse_cons, List.find?_append, Option.or_assoc]
      by_cases h : d.opcode = opcode <;> simp [h]
  have hempty : empty.get? opcode = none := by simp [empty, get?]
  rw [ofList, hfold, hempty, Option.or_none]

/-- What holds of the rows holds of what is found. -/
theorem mem_of_get?_ofList {rows : List Descriptor} {opcode : UInt8} {d : Descriptor}
    (hd : (ofList rows).get? opcode = some d) : d ∈ rows ∧ d.opcode = opcode := by
  rw [get?_ofList] at hd
  exact ⟨List.mem_reverse.mp (List.mem_of_find?_eq_some hd), by simpa using List.find?_some hd⟩

end OpcodeTable

/-- Whether the operands in the modes of a descriptor are such as an access needs, and take as many
bytes as the descriptor says. -/
def Descriptor.suits (d : Descriptor) : Operation.Access → Bool
  | .nothing => d.bytes = 1
  | .value => d.mode ≠ .implied ∧ d.bytes = 1 + d.mode.operandLength
  | .place => d.mode ∉ [.implied, .immediate] ∧ d.bytes = 1 + d.mode.operandLength
  | .address =>
    d.mode ∉ [.implied, .accumulator, .immediate] ∧ d.bytes = 1 + d.mode.operandLength
  | .addressAndTarget => d.mode = .zeroPage ∧ d.secondMode = some .relative ∧ d.bytes = 3

/-- An instruction whose only operand is in its mode is as long as this takes. -/
theorem Descriptor.bytes_of_suits {d : Descriptor} {access : Operation.Access}
    (hsuits : d.suits access = true) (haccess : access ∉ [.nothing, .addressAndTarget]) :
    d.bytes = 1 + d.mode.operandLength := by
  cases access with
  | nothing | addressAndTarget => exact absurd (by decide) haccess
  | value | place | address =>
    simp only [suits, decide_eq_true_iff] at hsuits
    exact hsuits.2

/-- Every row suits the operation of its mnemonic. -/
theorem suits_of_mem_standardRows :
    ∀ d ∈ standardRows, d.suits d.mnemonic.operation.access = true := by
  decide +kernel

/-- Every instruction takes a byte at least. -/
theorem bytes_pos_of_mem_standardRows : ∀ d ∈ standardRows, 0 < d.bytes.toNat := by
  decide +kernel

/-- The modes in which an operation can say where to continue; others are not restricted. -/
def Operation.steersIn (mode : AddressingMode) : Operation → Bool
  | branch _ => mode = .relative
  | jump => mode ∈ [.absolute, .absoluteIndirect, .absoluteIndirectX]
  | call => mode = .absolute
  | _ => true

/-- Every instruction that goes elsewhere has a mode in which it can say where. -/
theorem steersIn_of_mem_standardRows :
    ∀ d ∈ standardRows, d.mnemonic.operation.steersIn d.mode = true := by
  decide +kernel

/-- The bit instructions carry their bit in the opcode. -/
theorem bitIndex_of_mem_standardRows : ∀ d ∈ standardRows, ∀ n : Fin 8,
    d.mnemonic ∈ [.bbr n, .bbs n, .rmb n, .smb n] → d.bitIndex = .ofNat n := by
  decide +kernel

end Core65C02
