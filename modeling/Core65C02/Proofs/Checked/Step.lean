import Core65C02.Proofs.Checked.Arithmetic
import Core65C02.Proofs.Stack.Basic
import Core65C02.Proofs.Standard

/-!
# Steps with checked arithmetic

A step is made here with a check of every sum, difference and shift that does not wrap: in the words
of the operands, in the effect, on the stack and in the count of cycles. It takes its operands first
and its effect then, as it was shown to do; where the effect has nothing to check, it is the effect
without checks. Nothing is assumed of the state, of the bytes in memory, nor of the operations that
the mnemonics have. The main statement is that the only check which can fail is that of the total of
cycles, and that a step is as it is without checks if it does not.
-/

namespace Core65C02

open Checked

section Words

/-- The word with a high and a low byte. -/
def wordOfChecked (high low : UInt8) : Checked UInt16 := do
  return (← shifted 16 8 (high.toUInt16 <<< 8)) ||| low.toUInt16

/-- The word at an address. -/
def Memory.readWordChecked (m : Memory) (address : UInt16) : Checked UInt16 :=
  wordOfChecked (m.read (address + 1)) (m.read address)

/-- The pointer kept at a page-zero location. -/
def Memory.readZeroPageWordChecked (m : Memory) (location : UInt8) : Checked UInt16 :=
  wordOfChecked (m.read (location + 1).toUInt16) (m.read location.toUInt16)

end Words

namespace Cpu

section Operands

/-- What the bytes at `pc` refer to in an addressing mode. Indexing wraps, and is not checked. -/
def locateChecked (c : Cpu) (pc : UInt16) (mode : AddressingMode) : Checked (Option Resolved) := do
  match mode with
  | .absolute => return some ⟨.address (← c.memory.readWordChecked pc), false⟩
  | .absoluteX => return some (indexed (← c.memory.readWordChecked pc) c.x)
  | .absoluteY => return some (indexed (← c.memory.readWordChecked pc) c.y)
  | .absoluteIndirect =>
    let pointer ← c.memory.readWordChecked pc
    return some ⟨.address (← c.memory.readWordChecked pointer), false⟩
  | .absoluteIndirectX =>
    let pointer ← c.memory.readWordChecked pc
    return some ⟨.address (← c.memory.readWordChecked (pointer + c.x.toUInt16)), false⟩
  | .zeroPageIndirect =>
    return some ⟨.address (← c.memory.readZeroPageWordChecked (c.memory.read pc)), false⟩
  | .zeroPageIndirectX =>
    return some ⟨.address (← c.memory.readZeroPageWordChecked (c.memory.read pc + c.x)), false⟩
  | .zeroPageIndirectY =>
    return some (indexed (← c.memory.readZeroPageWordChecked (c.memory.read pc)) c.y)
  | mode => return c.locate pc mode

/-- The operand at `pc` in a mode, if it is acceptable. -/
def operandAtChecked (c : Cpu) (pc : UInt16) (mode : AddressingMode) (accepts : Operand → Bool) :
    Checked (Except AddressingMode Operands) := do
  match ← c.locateChecked pc mode with
  | some r =>
    if accepts r.operand then
      return .ok { operand := r.operand, pageCrossed := r.pageCrossed
                   next := pc + mode.operandLength.toUInt16 }
    else return .error mode
  | none => return .error mode

/-- The operands that an operation needs, read from `pc` on in the modes of a descriptor. -/
def operandsChecked (c : Cpu) (pc : UInt16) (d : Descriptor) :
    Operation.Access → Checked (Except AddressingMode Operands)
  | .nothing => return .ok { next := pc }
  | .value => c.operandAtChecked pc d.mode fun _ => true
  | .place => c.operandAtChecked pc d.mode fun o => !o.isLiteral
  | .address => c.operandAtChecked pc d.mode Operand.isAddress
  | .addressAndTarget => do
    match ← c.operandAtChecked pc d.mode Operand.isAddress with
    | .error mode => return .error mode
    | .ok first =>
      match ← c.operandAtChecked first.next (d.secondMode.getD .relative) Operand.isAddress with
      | .error mode => return .error mode
      | .ok second => return .ok { first with
          target := second.location, targetCrossed := second.pageCrossed, next := second.next }

/-- Nothing overflows where an operand is located. -/
theorem locateChecked_eq (c : Cpu) (pc : UInt16) (mode : AddressingMode) :
    c.locateChecked pc mode = .ok (c.locate pc mode) := by
  cases mode <;> rfl

/-- Nothing overflows where an operand is taken. -/
theorem operandAtChecked_eq (c : Cpu) (pc : UInt16) (mode : AddressingMode)
    (accepts : Operand → Bool) :
    c.operandAtChecked pc mode accepts = .ok (c.operandAt pc mode accepts) := by
  unfold operandAtChecked operandAt
  rw [locateChecked_eq, ok_bind]
  cases c.locate pc mode with
  | none => rfl
  | some r =>
    dsimp only
    by_cases haccepts : accepts r.operand = true
    · rw [if_pos haccepts, if_pos haccepts]
      rfl
    · rw [if_neg haccepts, if_neg haccepts]
      rfl

/-- Nothing overflows where the operands of an instruction are taken. -/
theorem operandsChecked_eq (c : Cpu) (pc : UInt16) (d : Descriptor) (access : Operation.Access) :
    c.operandsChecked pc d access = .ok (c.operands pc d access) := by
  cases access with
  | nothing => rfl
  | value | place | address =>
    unfold operandsChecked operands
    exact operandAtChecked_eq ..
  | addressAndTarget =>
    simp only [operandsChecked, operands, operandAtChecked_eq, ok_bind]
    cases c.operandAt pc d.mode Operand.isAddress with
    | error mode => rfl
    | ok first =>
      simp only [bind, Except.bind]
      cases c.operandAt first.next (d.secondMode.getD .relative) Operand.isAddress <;> rfl

end Operands

section Stack

/-- The address in page one that a stack pointer stands for, with a sum of words. -/
def stackAddressChecked (s : UInt8) : Checked UInt16 := do
  return .ofNat (← add 16 0x0100 s.toNat)

/-- Puts a byte on the stack. The pointer wraps. -/
def pushChecked (c : Cpu) (value : UInt8) : Checked Cpu := do
  let address ← stackAddressChecked c.s
  return { c with memory := c.memory.write address value, s := c.s - 1 }

/-- Takes the top byte off the stack and gives it. -/
def popChecked (c : Cpu) : Checked (UInt8 × Cpu) := do
  let c := c.drop
  let address ← stackAddressChecked c.s
  return (c.memory.read address, c)

/-- Puts a word on the stack, its high byte first. -/
def pushWordChecked (c : Cpu) (value : UInt16) : Checked Cpu := do
  let high ← shifted 16 8 (value >>> 8)
  let c ← c.pushChecked high.toUInt8
  c.pushChecked value.toUInt8

/-- Takes the top word off the stack, its low byte first, and gives it. -/
def popWordChecked (c : Cpu) : Checked (UInt16 × Cpu) := do
  let (low, c) ← c.popChecked
  let (high, c) ← c.popChecked
  return (← wordOfChecked high low, c)

/-- The address of a byte on the stack does not overflow. -/
theorem stackAddressChecked_eq (s : UInt8) : stackAddressChecked s = .ok (stackAddress s) := by
  have hs := s.toNat_lt
  unfold stackAddressChecked
  rw [add_eq_ok (by omega), ok_bind, ← toNat_stackAddress, UInt16.ofNat_toNat]
  rfl

/-- Nothing overflows where a byte is pushed. -/
theorem pushChecked_eq (c : Cpu) (value : UInt8) : c.pushChecked value = .ok (c.push value) := by
  unfold pushChecked
  rw [stackAddressChecked_eq, ok_bind]
  rfl

/-- Nothing overflows where a byte is pulled. -/
theorem popChecked_eq (c : Cpu) : c.popChecked = .ok c.pop := by
  unfold popChecked
  simp only [stackAddressChecked_eq, ok_bind]
  rfl

/-- Nothing overflows where a word is pushed. -/
theorem pushWordChecked_eq (c : Cpu) (value : UInt16) :
    c.pushWordChecked value = .ok (c.pushWord value) := by
  unfold pushWordChecked
  rw [shifted_eq_ok (by decide), ok_bind, pushChecked_eq, ok_bind, pushChecked_eq]
  rfl

/-- Nothing overflows where a word is pulled. -/
theorem popWordChecked_eq (c : Cpu) : c.popWordChecked = .ok c.popWord := by
  unfold popWordChecked
  simp only [popChecked_eq, ok_bind]
  rfl

end Stack

/-- Counts the cycles of the instruction that was executed: its own in a double word, and all in a
quad word. -/
def countCyclesChecked (c : Cpu) : Checked Cpu := do
  match c.last with
  | some i =>
    let cycles ← add 32 i.descriptor.cycles.toNat i.extraCycles.toNat
    return { c with totalCycles := ← add 64 c.totalCycles cycles }
  | none => return c

end Cpu

/-- The effect of an operation on a processor whose PC is already past the operands. -/
def Operation.performChecked (op : Operation) (d : Descriptor) (o : Operands) (c : Cpu) :
    Checked Cpu := do
  match op with
  | .add =>
    let sum := if c.status.decimalMode then addDecimalChecked else addBinaryChecked
    return c.accumulate (← sum c.a (c.operandValue o.operand) c.status.carry)
  | .subtract =>
    let sum := if c.status.decimalMode then subtractDecimalChecked else subtractBinaryChecked
    return c.accumulate (← sum c.a (c.operandValue o.operand) c.status.carry)
  | .modify f =>
    let old := c.operandValue o.operand
    let new ← f.valueChecked c.status.carry old
    let c := { c with status := { c.status with carry := f.carry c.status.carry old } }
    let c := c.writeOperand o.operand new
    return { c with status := c.status.ofValue new }
  | .assignBit state =>
    let mask ← d.bitMaskChecked
    return c.store o.location (assignBits (c.memory.read o.location) mask state)
  | .branchOnBit state =>
    let mask ← d.bitMaskChecked
    let holds := (c.memory.read o.location &&& mask != 0) == state
    return if holds then { c with pc := o.target } else c
  | .call => return { ← c.pushWordChecked (c.pc - 1) with pc := o.location }
  | .returnFromCall =>
    let (address, c) ← c.popWordChecked
    return { c with pc := address + 1 }
  | .returnFromInterrupt =>
    let (p, c) ← c.popChecked
    let (address, c) ← { c with status := .unpack p }.popWordChecked
    return { c with pc := address }
  | .push r => c.pushChecked (c.register r)
  | .pushStatus => c.pushChecked c.pushedStatus
  | .pull r =>
    let (value, c) ← c.popChecked
    return c.setRegister r value
  | .pullStatus =>
    let (p, c) ← c.popChecked
    return { c with status := .unpack p }
  | op => return op.perform d o c

/-- Nothing overflows in the operation of any instruction. -/
theorem performChecked_eq (op : Operation) (d : Descriptor) (o : Operands) (c : Cpu) :
    op.performChecked d o c = .ok (op.perform d o c) := by
  cases op with
  | add =>
    simp only [Operation.performChecked, Operation.perform, Operation.sum]
    split
    · rw [addDecimalChecked_eq, ok_bind]
      rfl
    · rw [addBinaryChecked_eq, ok_bind]
      rfl
  | subtract =>
    simp only [Operation.performChecked, Operation.perform, Operation.sum]
    split
    · rw [subtractDecimalChecked_eq, ok_bind]
      rfl
    · rw [subtractBinaryChecked, addBinaryChecked_eq, ok_bind]
      rfl
  | modify f =>
    simp only [Operation.performChecked, valueChecked_eq, ok_bind]
    rfl
  | assignBit state =>
    simp only [Operation.performChecked, bitMaskChecked_eq, ok_bind]
    rfl
  | branchOnBit state =>
    simp only [Operation.performChecked, bitMaskChecked_eq, ok_bind]
    rfl
  | call =>
    simp only [Operation.performChecked, Cpu.pushWordChecked_eq, ok_bind]
    rfl
  | returnFromCall =>
    simp only [Operation.performChecked, Cpu.popWordChecked_eq, ok_bind, Cpu.popWord_eq]
    rfl
  | returnFromInterrupt =>
    simp only [Operation.performChecked, Cpu.popChecked_eq, Cpu.popWordChecked_eq, ok_bind,
      Cpu.popWord_eq]
    rfl
  | push r => exact Cpu.pushChecked_eq ..
  | pushStatus => exact Cpu.pushChecked_eq ..
  | pull r =>
    simp only [Operation.performChecked, Cpu.popChecked_eq, ok_bind]
    rfl
  | pullStatus =>
    simp only [Operation.performChecked, Cpu.popChecked_eq, ok_bind]
    rfl
  | _ => rfl

namespace Cpu

/-- One step. An operand that is refused, like a byte that is no opcode, changes nothing but the
record of the last instruction. -/
def stepChecked (c : Cpu) : Checked StepOutcome := do
  if c.halted then return ⟨c, .ok .finished, []⟩
  match c.descriptor? with
  | none => return ⟨c, .error (.unsupportedInstruction c.opcode c.pc), []⟩
  | some d =>
    match c.dispatch d.mnemonic with
    | none => return ⟨c.recorded d, .error (.unsupportedInstruction c.opcode c.pc), []⟩
    | some op =>
      match ← c.operandsChecked (c.pc + 1) d op.access with
      | .error mode => return ⟨c.recorded d, .error (.unsupportedAddressingMode mode c.pc), []⟩
      | .ok o =>
        let c' ← op.performChecked d o (c.supplied d o (op.extraCycles d o c))
        return ⟨← c'.countCyclesChecked, .ok op.result, op.report o (c.supplied d o 0)⟩

/-- The processor after a number of steps, whatever their results. -/
def afterChecked : Cpu → Nat → Checked Cpu
  | c, 0 => return c
  | c, n + 1 => do (← c.stepChecked).cpu.afterChecked n

/-- The cycles of an instruction fit by far. The total fits if it does. -/
theorem countCyclesChecked_eq {c : Cpu} {i : Instruction} (hlast : c.last = some i) :
    c.countCyclesChecked = if c.totalCycles + i.cycles < 1 <<< 64 then .ok c.countCycles
      else .error (.sum 64 c.totalCycles i.cycles) := by
  have hbase := i.descriptor.cycles.toNat_lt
  have hextra := i.extraCycles.toNat_lt
  unfold countCyclesChecked
  rw [countCycles_of_last hlast, hlast]
  dsimp only
  rw [add_eq_ok (by omega), ok_bind]
  unfold Instruction.cycles Checked.add
  split <;> rfl

/-- The cycles of an instruction are added to the total, unless the total leaves 64 bits. -/
theorem countCyclesChecked_perform (c : Cpu) (d : Descriptor) (op : Operation) (o : Operands) :
    (op.perform d o (c.supplied d o (op.extraCycles d o c))).countCyclesChecked =
      if (c.executed d op o).totalCycles < 1 <<< 64 then .ok (c.executed d op o)
      else .error (.sum 64 c.totalCycles ((c.executed d op o).totalCycles - c.totalCycles)) := by
  obtain ⟨hlast, hsame, -⟩ := perform_frame op d o (c.supplied d o (op.extraCycles d o c))
  have htotal : (c.executed d op o).totalCycles =
      c.totalCycles + Instruction.cycles ⟨d, c.pc, op.extraCycles d o c⟩ := by
    rw [executed_eq]
    rfl
  rw [countCyclesChecked_eq hlast, hsame, htotal, Nat.add_sub_cancel_left]
  rfl

/-- A step with checks is the step without them, unless the total of cycles overflows. -/
theorem stepChecked_eq {c : Cpu} (htotal : c.totalCycles < 1 <<< 64) :
    c.stepChecked = if c.step.cpu.totalCycles < 1 <<< 64 then .ok c.step
      else .error (.sum 64 c.totalCycles (c.step.cpu.totalCycles - c.totalCycles)) := by
  have hrecorded (d : Descriptor) : (c.recorded d).totalCycles < 1 <<< 64 := htotal
  have hstep := c.stepsTo_step
  generalize c.step = out at hstep ⊢
  unfold stepChecked
  cases hstep with
  | halted hhalted =>
    rw [if_pos hhalted, if_pos htotal]
    rfl
  | undefined hhalted hd =>
    rw [hhalted, hd, if_pos htotal]
    rfl
  | unassigned hhalted d hd hop =>
    simp only [hhalted, hd, hop, if_pos (hrecorded d)]
    rfl
  | refused hhalted d hd op hop mode ho =>
    simp only [hhalted, hd, hop, operandsChecked_eq, ok_bind, ho, if_pos (hrecorded d)]
    rfl
  | executed hhalted d hd op hop o ho =>
    simp only [hhalted, hd, hop, operandsChecked_eq, ok_bind, ho, performChecked_eq,
      countCyclesChecked_perform]
    by_cases hfits : (c.executed d op o).totalCycles < 1 <<< 64
    · rw [if_pos hfits, if_pos hfits]
      rfl
    · rw [if_neg hfits, if_neg hfits]
      rfl

/-- A step takes at most twice as many cycles as a byte can count. -/
theorem step_totalCycles_le (c : Cpu) : c.step.cpu.totalCycles ≤ c.totalCycles + 510 := by
  have hstep := c.stepsTo_step
  generalize c.step = out at hstep ⊢
  cases hstep with
  | executed _ d _ op _ o _ =>
    have hbase := d.cycles.toNat_lt
    have hextra := (op.extraCycles d o c).toNat_lt
    rw [executed_eq]
    change c.totalCycles + _ ≤ _
    omega
  | _ => exact Nat.le_add_right ..

/-- Nothing overflows in a run that is not too long for the total of cycles. -/
theorem afterChecked_eq {c : Cpu} {n : Nat} (htotal : c.totalCycles + 510 * n < 1 <<< 64) :
    c.afterChecked n = .ok (c.after n) := by
  induction n generalizing c with
  | zero => rfl
  | succ n ih =>
    have hstep := c.step_totalCycles_le
    rw [afterChecked, stepChecked_eq (by omega), if_pos (by omega), ok_bind, ih (by omega)]
    rfl

/-- No step overflows but in the total of cycles, whatever the state is and whatever operations the
mnemonics have: with a check of every result that does not wrap it is the same step, and the one
check that can fail is that of the total. The results are far from the bounds of their types, also
for bytes that are not decimal: sums of digits are 37 at most, differences are no less than -358,
stack addresses lie in page one, and no byte is shifted by more places than the seven to its highest
bit. A run is therefore safe as long as the total is, with 510 cycles for each step. -/
theorem step_overflows_in_total_only :
    (∀ c : Cpu, c.totalCycles < 1 <<< 64 →
      c.stepChecked = if c.step.cpu.totalCycles < 1 <<< 64 then .ok c.step
        else .error (.sum 64 c.totalCycles (c.step.cpu.totalCycles - c.totalCycles))) ∧
    (∀ (c : Cpu) (n : Nat), c.totalCycles + 510 * n < 1 <<< 64 →
      c.afterChecked n = .ok (c.after n)) ∧
    (∀ a b carry, binarySum a b carry ≤ 511 ∧ lowDigitSum a b carry ≤ 37 ∧
      highDigitSum a b carry ≤ 37 ∧ -256 ≤ binaryDifference a b carry ∧
      -358 ≤ decimalDifference a b carry ∧ decimalDifference a b carry ≤ 255) ∧
    (∀ s, (stackAddress s).toNat = 0x0100 + s.toNat ∧ 0x0100 ≤ (stackAddress s).toNat ∧
      (stackAddress s).toNat ≤ 0x01FF) ∧
    (∀ d : Descriptor, d.bitIndex.toNat < 8) ∧
    ∀ i : Instruction, i.cycles ≤ 510 := by
  refine ⟨fun c => stepChecked_eq, fun c n => afterChecked_eq, ?_, ?_, toNat_bitIndex_lt, ?_⟩
  · intro a b carry
    obtain ⟨hlow, hhigh⟩ := digitSums_le a b carry
    obtain ⟨hleast, hgreatest⟩ := decimalDifference_bounds a b carry
    exact ⟨binarySum_le a b carry, hlow, hhigh, (differences_bounds a b carry).1, hleast, hgreatest⟩
  · intro s
    have hs := s.toNat_lt
    rw [toNat_stackAddress]
    omega
  · intro i
    have hbase := i.descriptor.cycles.toNat_lt
    have hextra := i.extraCycles.toNat_lt
    unfold Instruction.cycles
    omega

/-- A processor about to do nothing, for two cycles, with a total that is as great as it can be. -/
def exhausted : Cpu where
  memory := Memory.zero.write 0x0000 0xEA
  totalCycles := 0xFFFFFFFFFFFFFFFF

/-- Its next step overflows, since no cycle can be added to its total. A thousand steps of a
processor that has just been made do not. -/
theorem step_overflows_in_total_only_exhausted :
    exhausted.stepChecked = .error (.sum 64 0xFFFFFFFFFFFFFFFF 2) ∧
      (default : Cpu).afterChecked 1000 = .ok ((default : Cpu).after 1000) := by
  have hopcode : exhausted.opcode = 0xEA := by simp [opcode, exhausted, Memory.read_write]
  have hd : exhausted.descriptor? = some (.single 0xEA .nop .implied 2) := by
    rw [descriptor?_eq_find?, hopcode]
    decide +kernel
  have hstep := StepsTo.step_eq (.executed (c := exhausted) rfl _ hd .idle rfl _ rfl)
  have htotal : exhausted.step.cpu.totalCycles = 0xFFFFFFFFFFFFFFFF + 2 := by
    rw [hstep, executed_eq]
    rfl
  refine ⟨?_, step_overflows_in_total_only.2.1 default 1000 (by decide)⟩
  rw [step_overflows_in_total_only.1 exhausted (by decide), htotal, if_neg (by decide)]
  rfl

end Cpu

end Core65C02
