import Core65C02.Proofs.Byte
import Core65C02.Proofs.Standard

/-!
# Where execution continues

The bytes in memory before a step and the flags decide where the step leads. The rule is stated here
by mnemonic, without resolver or operations: an instruction is followed by the one behind its last
byte, unless it is a branch that is taken, a jump, a call or a return. The main statement is that a
step of the standard dispatch at an opcode that is in the table leads where the rule says.
-/

namespace Core65C02

/-- A byte in two's complement as a distance in the address space. -/
def signExtended (value : UInt8) : UInt16 := value.toInt8.toInt16.toUInt16

/-- A relative target is the origin and the distance with its sign extended. -/
theorem relativeTarget_eq (origin : UInt16) (distance : UInt8) :
    relativeTarget origin distance = origin + signExtended distance := by
  have hall : ∀ v : UInt8,
      v.toUInt16 + -(if isNegative v then 0x0100 else 0) = signExtended v := by
    decide +kernel
  rw [relativeTarget, UInt16.sub_eq_add_neg, UInt16.add_assoc, hall]

/-- The mask of a bit selects the bit. -/
theorem testBit_eq (n : Fin 8) (value : UInt8) :
    (value &&& bitMask (.ofNat n) != 0) = value.toNat.testBit n := by
  revert n value
  decide +kernel

namespace Cpu

/-- A bit of the byte in page zero that the byte after the opcode names. -/
def selectedBit (c : Cpu) (n : Fin 8) : Bool :=
  (c.memory.read (c.memory.read (c.pc + 1)).toUInt16).toNat.testBit n

/-- Whether an instruction is a branch that is taken. -/
def takesBranch (c : Cpu) : Mnemonic → Bool
  | .bra => true
  | .bcc => !c.status.carry
  | .bcs => c.status.carry
  | .bne => !c.status.zero
  | .beq => c.status.zero
  | .bpl => !c.status.negative
  | .bmi => c.status.negative
  | .bvc => !c.status.overflow
  | .bvs => c.status.overflow
  | .bbr n => !c.selectedBit n
  | .bbs n => c.selectedBit n
  | _ => false

/-- Where a jump or a call leads. -/
def jumpTarget (c : Cpu) (mode : AddressingMode) : UInt16 :=
  let word := c.memory.readWord (c.pc + 1)
  match mode with
  | .absoluteIndirect => c.memory.readWord word
  | .absoluteIndirectX => c.memory.readWord (word + c.x.toUInt16)
  | _ => word

/-- The word on the stack above a stack pointer, its low byte on top. -/
def stackWord (c : Cpu) (s : UInt8) : UInt16 :=
  ((c.memory.read (stackAddress (s + 2))).toUInt16 <<< 8) |||
    (c.memory.read (stackAddress (s + 1))).toUInt16

/-- The address behind the last byte of the instruction at PC. -/
def following (c : Cpu) (d : Descriptor) : UInt16 := c.pc + d.bytes.toUInt16

/-- Where a branch leads that is taken: as far behind it as its last byte says. -/
def branchTarget (c : Cpu) (d : Descriptor) : UInt16 :=
  c.following d + signExtended (c.memory.read (c.following d - 1))

/-- Where the instruction at PC leads. -/
def successor (c : Cpu) (d : Descriptor) : UInt16 :=
  match d.mnemonic with
  | .jmp | .jsr => c.jumpTarget d.mode
  | .rts => c.stackWord c.s + 1
  | .rti => c.stackWord (c.s + 1)
  | m => if c.takesBranch m then c.branchTarget d else c.following d

/-- Where an operation leads, on a processor whose PC is already past the operands. -/
theorem perform_pc (op : Operation) (d : Descriptor) (o : Operands) (c : Cpu) :
    (op.perform d o c).pc = match op with
      | .branch condition => if c.holds condition then o.location else c.pc
      | .branchOnBit state => if Operation.bitHolds d o c state then o.target else c.pc
      | .jump | .call => o.location
      | .returnFromCall => c.topWord + 1
      | .returnFromInterrupt => c.drop.topWord
      | _ => c.pc := by
  cases op with
  | modify f =>
    unfold Operation.perform
    cases o.operand <;> rfl
  | testBits => by_cases hm : d.mode = .immediate <;> simp [Operation.perform, hm, testSelected]
  | branch condition => cases h : c.holds condition <;> simp [Operation.perform, h]
  | branchOnBit state => cases h : Operation.bitHolds d o c state <;> simp [Operation.perform, h]
  | count r up | load r | pull r | transfer source r => simp [Operation.perform, drop]
  | putFlag f value => cases f <;> rfl
  | _ => rfl

/-- A branch is taken if its condition holds. -/
theorem takesBranch_of_branch (c : Cpu) {m : Mnemonic} {condition : Condition}
    (hop : m.operation = .branch condition) : c.takesBranch m = c.holds condition := by
  cases m <;> cases hop <;> simp [takesBranch, holds, StatusFlags.test]

/-- A branch on a bit is taken if the bit has the state that it asks for. -/
theorem takesBranch_of_branchOnBit (c : Cpu) {m : Mnemonic} {state : Bool}
    (hop : m.operation = .branchOnBit state) :
    ∃ n, m ∈ [.bbr n, .bbs n, .rmb n, .smb n] ∧ c.takesBranch m = (c.selectedBit n == state) := by
  cases m <;> cases hop
  case bbr n => exact ⟨n, by simp, by simp [takesBranch]⟩
  case bbs n => exact ⟨n, by simp, by simp [takesBranch]⟩

/-- The rule by operation. -/
theorem successor_eq (c : Cpu) (d : Descriptor) :
    c.successor d = match d.mnemonic.operation with
      | .branch _ | .branchOnBit _ =>
        if c.takesBranch d.mnemonic then c.branchTarget d else c.following d
      | .jump | .call => c.jumpTarget d.mode
      | .returnFromCall => c.stackWord c.s + 1
      | .returnFromInterrupt => c.stackWord (c.s + 1)
      | _ => c.following d := by
  unfold successor
  cases d.mnemonic <;> rfl

/-- The distance of a branch is its last byte. -/
theorem location_of_relative {c : Cpu} {d : Descriptor} {o : Operands} (hmode : d.mode = .relative)
    (ho : c.operands (c.pc + 1) d .address = .ok o) (hnext : o.next = c.following d) :
    o.location = c.branchTarget d := by
  rw [operands_of_relative hmode] at ho
  cases ho
  unfold branchTarget
  rw [← hnext]
  change relativeTarget (c.pc + 1 + 1) (c.memory.read (c.pc + 1)) =
    c.pc + 1 + 1 + signExtended (c.memory.read (c.pc + 1 + 1 - 1))
  rw [relativeTarget_eq, UInt16.add_sub_cancel]

/-- A bit branch tests the byte in page zero that its second byte names, and the distance is its
last byte. -/
theorem location_and_target_of_bitBranch {c : Cpu} {d : Descriptor} {o : Operands}
    (hmode : d.mode = .zeroPage) (hsecond : d.secondMode = some .relative)
    (ho : c.operands (c.pc + 1) d .addressAndTarget = .ok o) (hnext : o.next = c.following d) :
    o.location = (c.memory.read (c.pc + 1)).toUInt16 ∧ o.target = c.branchTarget d := by
  rw [operands_of_bitBranch hmode hsecond] at ho
  cases ho
  refine ⟨rfl, ?_⟩
  unfold branchTarget
  rw [← hnext]
  change relativeTarget (c.pc + 1 + 1 + 1) (c.memory.read (c.pc + 1 + 1)) =
    c.pc + 1 + 1 + 1 + signExtended (c.memory.read (c.pc + 1 + 1 + 1 - 1))
  rw [relativeTarget_eq, UInt16.add_sub_cancel]

/-- A jump finds its target as its mode says. -/
theorem location_of_jump {c : Cpu} {d : Descriptor} {o : Operands}
    (hmode : d.mode ∈ [.absolute, .absoluteIndirect, .absoluteIndirectX])
    (ho : c.operands (c.pc + 1) d .address = .ok o) : o.location = c.jumpTarget d.mode := by
  unfold operands operandAt at ho
  simp only [List.mem_cons, List.not_mem_nil, or_false] at hmode
  rcases hmode with hmode | hmode | hmode <;> rw [hmode] at ho ⊢ <;> cases ho <;> rfl

/-- The word on top of the stack is the one above the stack pointer. -/
theorem topWord_eq (c : Cpu) : c.topWord = c.stackWord c.s := by
  simp [topWord, stackWord, top, drop, UInt8.add_assoc]

/-- The bit in the opcode of a bit branch decides as the rule says. -/
theorem bitHolds_eq_takesBranch {c : Cpu} {d : Descriptor} {o : Operands} {state : Bool}
    (hd : d ∈ standardRows) (hop : d.mnemonic.operation = .branchOnBit state)
    (hlocation : o.location = (c.memory.read (c.pc + 1)).toUInt16) :
    Operation.bitHolds d o c state = c.takesBranch d.mnemonic := by
  obtain ⟨n, hn, htakes⟩ := takesBranch_of_branchOnBit c hop
  rw [htakes, selectedBit, ← testBit_eq, ← bitIndex_of_mem_standardRows d hd n hn, ← hlocation]
  rfl

/-- An operation leads where the rule says. -/
theorem executed_pc {c : Cpu} {d : Descriptor} {o : Operands} (hd : d ∈ standardRows)
    (ho : c.operands (c.pc + 1) d d.mnemonic.operation.access = .ok o)
    (hnext : o.next = c.following d) :
    (c.executed d d.mnemonic.operation o).pc = c.successor d := by
  have hsteers := steersIn_of_mem_standardRows d hd
  have hsuits := suits_of_mem_standardRows d hd
  rw [executed_eq]
  -- where execution continues does not depend on what the instruction costs
  generalize d.mnemonic.operation.extraCycles d o c = extra
  change (d.mnemonic.operation.perform d o (c.supplied d o extra)).pc = _
  rw [perform_pc, successor_eq]
  cases hop : d.mnemonic.operation with
  | branch condition =>
    rw [hop] at ho hsteers
    have hmode : d.mode = .relative := by simpa [Operation.steersIn] using hsteers
    rw [takesBranch_of_branch c hop]
    change (if (c.supplied d o extra).holds condition then o.location else o.next) = _
    rw [holds_supplied, location_of_relative hmode ho hnext, hnext]
  | branchOnBit state =>
    rw [hop] at ho
    obtain ⟨hmode, hsecond, _⟩ :
        d.mode = .zeroPage ∧ d.secondMode = some .relative ∧ d.bytes = 3 := by
      simpa [hop, Operation.access, Descriptor.suits] using hsuits
    obtain ⟨hlocation, htarget⟩ := location_and_target_of_bitBranch hmode hsecond ho hnext
    change (if Operation.bitHolds d o c state then o.target else o.next) = _
    rw [bitHolds_eq_takesBranch hd hop hlocation, htarget, hnext]
  | jump =>
    rw [hop] at ho hsteers
    exact location_of_jump (by simpa [Operation.steersIn] using hsteers) ho
  | call =>
    rw [hop] at ho hsteers
    have hmode : d.mode = .absolute := by simpa [Operation.steersIn] using hsteers
    exact location_of_jump (by simp [hmode]) ho
  | returnFromCall =>
    change (c.supplied d o extra).topWord + 1 = _
    rw [topWord_eq]
    rfl
  | returnFromInterrupt =>
    change (c.supplied d o extra).drop.topWord = _
    rw [topWord_eq]
    rfl
  | _ => exact hnext

/-- A call pushes the address of its last byte, the high byte first. -/
theorem executed_call {c : Cpu} {d : Descriptor} {o : Operands} (hnext : o.next = c.following d) :
    (c.executed d .call o).memory =
        (c.memory.write (stackAddress c.s) ((c.following d - 1) >>> 8).toUInt8).write
          (stackAddress (c.s - 1)) (c.following d - 1).toUInt8 ∧
      (c.executed d .call o).s = c.s - 2 := by
  rw [executed_eq, ← hnext, ← sub_one_sub_one]
  exact ⟨rfl, rfl⟩

/-- Instructions are as long as their descriptors say, and execution continues where the bytes
that are in memory before the step lead: behind the instruction, unless it is a branch that is
taken, a jump, a call or a return. A call pushes the address of its last byte, the high byte
first. -/
theorem step_successor (c : Cpu) (d : Descriptor) (hdispatch : c.dispatch = .standard)
    (hhalted : c.halted = false) (hd : c.descriptor? = some d) :
    (∃ r, c.step.result = .ok r) ∧ c.step.cpu.pc = c.successor d ∧
      (d.mnemonic = .jsr →
        c.step.cpu.memory =
            (c.memory.write (stackAddress c.s) ((c.following d - 1) >>> 8).toUInt8).write
              (stackAddress (c.s - 1)) (c.following d - 1).toUInt8 ∧
          c.step.cpu.s = c.s - 2) := by
  obtain ⟨o, ho, hnext, hstep⟩ := step_standard hdispatch hhalted hd
  rw [hstep]
  refine ⟨⟨_, rfl⟩, executed_pc (descriptor?_mem hd).1 ho hnext, fun hm => ?_⟩
  rw [hm]
  exact executed_call hnext

/-- A processor about to call a subroutine, with an instruction that wraps around the end of the
address space and a stack that wraps around the end of its page. -/
def calling : Cpu where
  pc := 0xFFFE
  s := 0x00
  memory := ((Memory.zero.write 0xFFFE 0x20).write 0xFFFF 0x34).write 0x0000 0x12

/-- The subroutine is where the operand says, though the operand wraps around. The address that is
pushed is that of its last byte, and the stack wraps around as well. -/
theorem step_successor_calling :
    calling.step.cpu.pc = 0x1234 ∧ calling.step.cpu.s = 0xFE ∧
      calling.step.cpu.memory = (calling.memory.write 0x0100 0x00).write 0x01FF 0x00 := by
  have hopcode : calling.opcode = 0x20 := by simp [opcode, calling, Memory.read_write]
  have hd : calling.descriptor? = some (.single 0x20 .jsr .absolute 6) := by
    rw [descriptor?_eq_find?, hopcode]
    decide +kernel
  obtain ⟨_, hpc, hcall⟩ := step_successor calling _ rfl rfl hd
  obtain ⟨hmemory, hs⟩ := hcall rfl
  refine ⟨hpc.trans ?_, hs, hmemory⟩
  simp [successor, jumpTarget, calling, Memory.readWord, Memory.read_write, Descriptor.single]
  rfl

end Cpu

end Core65C02
