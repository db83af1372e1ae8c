import Core65C02.Proofs.Control

/-!
# What an operation reads and writes

Besides its operand bytes an operation reads some bytes of memory and writes some. Here both are
lists that are computed from the state before it. The main statement is that on another image that
agrees at the addresses that are read an operation has the same effect, and that what happens to
the image is the writes of the list.
-/

namespace Core65C02

namespace Operation

/-- The addresses whose bytes an operation reads once it has got its operands. -/
def reads (op : Operation) (o : Operands) (c : Cpu) : List UInt16 :=
  match op with
  | add | subtract | logic _ | testBits | modify _ | compare _ | load _ =>
    o.operand.address?.toList
  | testAndAssignBits _ | assignBit _ | branchOnBit _ => [o.location]
  | returnFromCall => [Cpu.stackAddress (c.s + 1), Cpu.stackAddress (c.s + 2)]
  | returnFromInterrupt =>
    [Cpu.stackAddress (c.s + 1), Cpu.stackAddress (c.s + 2), Cpu.stackAddress (c.s + 3)]
  | pull _ | pullStatus => [Cpu.stackAddress (c.s + 1)]
  | store _ | storeZero | branch _ | jump | call | count .. | push _ | pushStatus | transfer ..
  | putFlag .. | idle | halt | pause | dumpRegisters | dumpMemory => []

/-- What an operation writes, on a processor whose PC is already past the operands: addresses and
bytes in the order of the writes. -/
def writes (op : Operation) (d : Descriptor) (o : Operands) (c : Cpu) : List (UInt16 × UInt8) :=
  match op with
  | testAndAssignBits state =>
    [(o.location, assignBits (c.memory.read o.location) c.a state)]
  | modify f =>
    o.operand.address?.toList.map fun address =>
      (address, f.value c.status.carry (c.memory.read address))
  | store r => [(o.location, c.register r)]
  | storeZero => [(o.location, 0)]
  | assignBit state =>
    [(o.location, assignBits (c.memory.read o.location) (bitMask d.bitIndex) state)]
  | call =>
    [(Cpu.stackAddress c.s, ((c.pc - 1) >>> 8).toUInt8),
      (Cpu.stackAddress (c.s - 1), (c.pc - 1).toUInt8)]
  | push r => [(Cpu.stackAddress c.s, c.register r)]
  | pushStatus => [(Cpu.stackAddress c.s, c.pushedStatus)]
  | _ => []

end Operation

namespace Cpu

section Agreement

variable {c : Cpu} {m : Memory}

/-- Images that agree on the byte at the address of an operand, if it has one, give it the same
value. -/
theorem operandValue_of_agree {operand : Operand}
    (hagree : ∀ address ∈ operand.address?.toList, m.read address = c.memory.read address) :
    { c with memory := m }.operandValue operand = c.operandValue operand := by
  cases operand with
  | address address => exact hagree address (by simp [Operand.address?])
  | _ => rfl

/-- On an image that agrees where an operation reads, the operation has the same effect, and it
makes the same writes. -/
theorem perform_of_agree {op : Operation} {d : Descriptor} {o : Operands}
    (hagree : ∀ address ∈ op.reads o c, m.read address = c.memory.read address) :
    op.perform d o { c with memory := m } =
      { op.perform d o c with memory := m.overlay (op.writes d o c) } := by
  unfold Operation.reads at hagree
  cases op with
  | add | subtract =>
    simp only [Operation.perform, Operation.sum, operandValue_of_agree hagree]
    rfl
  | logic _ | compare _ =>
    simp only [Operation.perform, operandValue_of_agree hagree]
    rfl
  | load r =>
    simp only [Operation.perform, operandValue_of_agree hagree]
    cases r <;> rfl
  | testBits =>
    simp only [Operation.perform, operandValue_of_agree hagree]
    split <;> rfl
  | modify f =>
    simp only [Operation.perform, operandValue_of_agree hagree]
    obtain ⟨operand⟩ := o
    cases operand <;> rfl
  | testAndAssignBits state | assignBit state =>
    have hlocation := hagree o.location (by simp)
    simp only [Operation.perform, hlocation]
    rfl
  | branch condition =>
    have hholds : { c with memory := m }.holds condition = c.holds condition := by
      cases condition <;> rfl
    simp only [Operation.perform, hholds]
    cases c.holds condition <;> rfl
  | branchOnBit state =>
    have hlocation := hagree o.location (by simp)
    have hholds : Operation.bitHolds d o { c with memory := m } state =
        Operation.bitHolds d o c state := by
      simp only [Operation.bitHolds, hlocation]
    simp only [Operation.perform, hholds]
    cases Operation.bitHolds d o c state <;> rfl
  | returnFromCall =>
    have hlow := hagree (stackAddress (c.s + 1)) (by simp)
    have hhigh := hagree (stackAddress (c.s + 2)) (by simp)
    simp only [Operation.perform, topWord_eq, stackWord, hlow, hhigh]
    rfl
  | returnFromInterrupt =>
    have hp := hagree (stackAddress (c.s + 1)) (by simp)
    have hlow := hagree (stackAddress (c.s + 2)) (by simp)
    have hhigh := hagree (stackAddress (c.s + 3)) (by simp)
    simp only [Operation.perform, topWord_eq, stackWord, top, drop, UInt8.add_assoc]
    simp only [hp, hlow, hhigh, UInt8.reduceAdd]
    rfl
  | pull r =>
    have htop := hagree (stackAddress (c.s + 1)) (by simp)
    simp only [Operation.perform, top, htop]
    cases r <;> rfl
  | pullStatus =>
    have htop := hagree (stackAddress (c.s + 1)) (by simp)
    simp only [Operation.perform, top, htop]
    rfl
  | count r up | transfer source r => cases r <;> rfl
  | putFlag f value => cases f <;> rfl
  | _ => rfl

/-- Also the cycles that an operation charges depend on what it reads only. -/
theorem extraCycles_of_agree {op : Operation} {d : Descriptor} {o : Operands}
    (hagree : ∀ address ∈ op.reads o c, m.read address = c.memory.read address) :
    op.extraCycles d o { c with memory := m } = op.extraCycles d o c := by
  cases op with
  | branch condition => cases condition <;> rfl
  | branchOnBit state =>
    have hlocation := hagree o.location (by simp [Operation.reads])
    simp only [Operation.extraCycles, Operation.bitHolds, hlocation]
  | _ => rfl

end Agreement

/-- What an operation does to memory is to make its writes. -/
theorem memory_perform (op : Operation) (d : Descriptor) (o : Operands) (c : Cpu) :
    (op.perform d o c).memory = c.memory.overlay (op.writes d o c) := by
  have hself : op.perform d o c =
      { op.perform d o c with memory := c.memory.overlay (op.writes d o c) } :=
    perform_of_agree fun _ _ => rfl
  rw [hself]

/-- The address of the operand of an instruction, if it is in memory. -/
def effectiveAddress? (c : Cpu) (d : Descriptor) : Option UInt16 :=
  (c.locate (c.pc + 1) d.mode).bind (·.operand.address?)

/-- The operands of an instruction that needs one have the effective address of its mode. -/
theorem address?_of_operands {c : Cpu} {d : Descriptor} {access : Operation.Access} {o : Operands}
    (ho : c.operands (c.pc + 1) d access = .ok o) (haccess : access ≠ .nothing) :
    o.operand.address? = c.effectiveAddress? d := by
  obtain ⟨r, hr, hoperand, _, _⟩ := locate_of_operands ho haccess
  rw [effectiveAddress?, hr, hoperand]
  rfl

/-- An operation that needs an address works at the effective address. -/
theorem location_of_operands {c : Cpu} {d : Descriptor} {access : Operation.Access} {o : Operands}
    (ho : c.operands (c.pc + 1) d access = .ok o)
    (haccess : access ∈ [.address, .addressAndTarget]) :
    (c.effectiveAddress? d).toList = [o.location] := by
  have hnothing : access ≠ .nothing := by
    rintro rfl
    simp at haccess
  obtain ⟨_, _, _, _, haddress⟩ := locate_of_operands ho hnothing
  rw [← address?_of_operands ho hnothing]
  obtain ⟨address, hlocation⟩ := Option.isSome_iff_exists.mp (haddress haccess)
  simp [Operands.location, hlocation]

end Cpu

end Core65C02
