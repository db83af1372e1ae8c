import Core65C02.Cpu.Operand

/-!
# Operands by formula

The resolver fetches operand bytes one at a time, each at the PC of that moment. Here the operand
of a mode is a formula over the state before the first fetch, and resolving is shown to compute
it, to move PC by the length of the mode and to change nothing else.
-/

namespace Core65C02

namespace Cpu

/-- What the bytes at `pc` refer to in an addressing mode, with the registers and the memory of `c`.
Only the implied mode refers to nothing. -/
def locate (c : Cpu) (pc : UInt16) : AddressingMode → Option Resolved
  | .implied => none
  | .accumulator => some ⟨.accumulator, false⟩
  | .immediate => some ⟨.immediate (c.memory.read pc), false⟩
  | .absolute => some ⟨.address (c.memory.readWord pc), false⟩
  | .absoluteX => some (indexed (c.memory.readWord pc) c.x)
  | .absoluteY => some (indexed (c.memory.readWord pc) c.y)
  | .absoluteIndirect => some ⟨.address (c.memory.readWord (c.memory.readWord pc)), false⟩
  | .absoluteIndirectX =>
    some ⟨.address (c.memory.readWord (c.memory.readWord pc + c.x.toUInt16)), false⟩
  | .relative =>
    let target := relativeTarget (pc + 1) (c.memory.read pc)
    some ⟨.address target, pagesDiffer (pc + 1) target⟩
  | .zeroPage => some ⟨.address (c.memory.read pc).toUInt16, false⟩
  | .zeroPageX => some ⟨.address (c.memory.read pc + c.x).toUInt16, false⟩
  | .zeroPageY => some ⟨.address (c.memory.read pc + c.y).toUInt16, false⟩
  | .zeroPageIndirect => some ⟨.address (c.memory.readZeroPageWord (c.memory.read pc)), false⟩
  | .zeroPageIndirectX =>
    some ⟨.address (c.memory.readZeroPageWord (c.memory.read pc + c.x)), false⟩
  | .zeroPageIndirectY => some (indexed (c.memory.readZeroPageWord (c.memory.read pc)) c.y)

/-- Moves PC past the operand bytes of an addressing mode. -/
def skip (c : Cpu) (mode : AddressingMode) : Cpu :=
  { c with pc := c.pc + mode.operandLength.toUInt16 }

/-- To fetch a word is to read it at PC and to move PC by two. -/
theorem fetchWord_eq (c : Cpu) :
    c.fetchWord = (c.memory.readWord c.pc, { c with pc := c.pc + 2 }) := by
  simp [fetchWord, fetchByte, Memory.readWord, UInt16.add_assoc]

/-- Resolving computes the operand of the formula and moves PC past its bytes. Only the implied mode
is refused, and then nothing has been fetched. -/
theorem resolveOperand_eq (c : Cpu) (mode : AddressingMode) :
    c.resolveOperand mode = match c.locate c.pc mode with
      | some r => (.ok r, c.skip mode)
      | none => (.error (.unsupportedAddressingMode mode c.instructionAddress), c) := by
  cases mode <;>
    simp [resolveOperand, locate, skip, fetchWord_eq, fetchByte, AddressingMode.operandLength]

/-- Only the implied mode refers to nothing. -/
theorem locate_eq_none_iff {c : Cpu} {pc : UInt16} {mode : AddressingMode} :
    c.locate pc mode = none ↔ mode = .implied := by
  cases mode <;> simp [locate]

end Cpu

/-- The operands of an instruction and the address of the instruction that follows. -/
structure Operands where
  /-- What the operand refers to, the accumulator if the operation has none. -/
  operand : Operand := .accumulator
  /-- Whether computing the operand crossed a page. -/
  pageCrossed : Bool := false
  /-- The second operand of a bit branch: where the branch leads. -/
  target : UInt16 := 0
  /-- Whether the branch leads to another page. -/
  targetCrossed : Bool := false
  /-- The address after the operand bytes that were looked at. -/
  next : UInt16
deriving DecidableEq

/-- The address that the operand refers to; operations that need one have got one. -/
def Operands.location (o : Operands) : UInt16 := o.operand.address?.getD 0

/-- Whether an operand is in memory. -/
def Operand.isAddress (o : Operand) : Bool := o.address?.isSome

/-- Whether an operand is a byte of the instruction itself, to which nothing can be written back. -/
def Operand.isLiteral : Operand → Bool
  | .immediate _ => true
  | _ => false

namespace Cpu

/-- The operand at `pc` in a mode, if it is acceptable. -/
def operandAt (c : Cpu) (pc : UInt16) (mode : AddressingMode) (accepts : Operand → Bool) :
    Except AddressingMode Operands :=
  match c.locate pc mode with
  | some r =>
    if accepts r.operand then
      .ok { operand := r.operand, pageCrossed := r.pageCrossed
            next := pc + mode.operandLength.toUInt16 }
    else .error mode
  | none => .error mode

/-- An operand that is acceptable is the one of the formula. -/
theorem locate_of_operandAt {c : Cpu} {pc : UInt16} {mode : AddressingMode}
    {accepts : Operand → Bool} {o : Operands} (ho : c.operandAt pc mode accepts = .ok o) :
    ∃ r, c.locate pc mode = some r ∧ accepts r.operand = true ∧ o.operand = r.operand ∧
      o.pageCrossed = r.pageCrossed := by
  unfold operandAt at ho
  cases hr : c.locate pc mode with
  | none =>
    rw [hr] at ho
    cases ho
  | some r =>
    simp only [hr] at ho
    by_cases haccepts : accepts r.operand = true
    · rw [if_pos haccepts] at ho
      cases ho
      exact ⟨r, rfl, haccepts, rfl, rfl⟩
    · rw [if_neg haccepts] at ho
      cases ho

/-- The operands that an operation needs, read from `pc` on in the modes of a descriptor. If an
operand is of a kind that the operation cannot work on, the mode is the error. -/
def operands (c : Cpu) (pc : UInt16) (d : Descriptor) :
    Operation.Access → Except AddressingMode Operands
  | .nothing => .ok { next := pc }
  | .value => c.operandAt pc d.mode fun _ => true
  | .place => c.operandAt pc d.mode fun o => !o.isLiteral
  | .address => c.operandAt pc d.mode Operand.isAddress
  | .addressAndTarget => do
    let first ← c.operandAt pc d.mode Operand.isAddress
    let second ← c.operandAt first.next (d.secondMode.getD .relative) Operand.isAddress
    return { first with
      target := second.location, targetCrossed := second.pageCrossed, next := second.next }

/-- Whatever an operation needs, its operand is the one of the formula, and it is in memory if an
address is needed. -/
theorem locate_of_operands {c : Cpu} {pc : UInt16} {d : Descriptor} {access : Operation.Access}
    {o : Operands} (ho : c.operands pc d access = .ok o) (haccess : access ≠ .nothing) :
    ∃ r, c.locate pc d.mode = some r ∧ o.operand = r.operand ∧ o.pageCrossed = r.pageCrossed ∧
      (access ∈ [.address, .addressAndTarget] → o.operand.isAddress = true) := by
  unfold operands at ho
  cases access with
  | nothing => exact absurd rfl haccess
  | value | place =>
    obtain ⟨r, hr, _, hoperand, hcrossed⟩ := locate_of_operandAt ho
    exact ⟨r, hr, hoperand, hcrossed, by simp⟩
  | address =>
    obtain ⟨r, hr, haddress, hoperand, hcrossed⟩ := locate_of_operandAt ho
    exact ⟨r, hr, hoperand, hcrossed, fun _ => by rw [hoperand, haddress]⟩
  | addressAndTarget =>
    cases hfirst : c.operandAt pc d.mode Operand.isAddress with
    | error mode =>
      rw [hfirst] at ho
      cases ho
    | ok first =>
      obtain ⟨r, hr, haddress, hoperand, hcrossed⟩ := locate_of_operandAt hfirst
      simp only [hfirst, bind, Except.bind] at ho
      cases hsecond : c.operandAt first.next (d.secondMode.getD .relative) Operand.isAddress with
      | error mode =>
        rw [hsecond] at ho
        cases ho
      | ok second =>
        rw [hsecond] at ho
        cases ho
        exact ⟨r, hr, hoperand, hcrossed, fun _ => (congrArg _ hoperand).trans haddress⟩

/-- The operand of a branch: a target, as far behind the branch as its last byte says. -/
theorem operands_of_relative {c : Cpu} {pc : UInt16} {d : Descriptor} (hmode : d.mode = .relative) :
    c.operands pc d .address =
      let target := relativeTarget (pc + 1) (c.memory.read pc)
      .ok { operand := .address target
            pageCrossed := pagesDiffer (pc + 1) target
            next := pc + 1 } := by
  unfold operands operandAt
  rw [hmode]
  rfl

/-- The operands of a bit branch: a byte in page zero and, with the byte after it, a target. -/
theorem operands_of_bitBranch {c : Cpu} {pc : UInt16} {d : Descriptor} (hmode : d.mode = .zeroPage)
    (hsecond : d.secondMode = some .relative) :
    c.operands pc d .addressAndTarget =
      let target := relativeTarget (pc + 1 + 1) (c.memory.read (pc + 1))
      .ok { operand := .address (c.memory.read pc).toUInt16
            target := target
            targetCrossed := pagesDiffer (pc + 1 + 1) target
            next := pc + 1 + 1 } := by
  unfold operands operandAt
  rw [hmode, hsecond]
  rfl

/-- The fault of a mode in which the processor cannot find what it needs. -/
def modeFault (c : Cpu) (mode : AddressingMode) : Fault :=
  .unsupportedAddressingMode mode c.instructionAddress

/-- Refusal moves PC as well: past the bytes of an operand that turned out to be unusable. -/
theorem resolveAddress_eq (c : Cpu) (mode : AddressingMode) :
    c.resolveAddress mode = match c.operandAt c.pc mode Operand.isAddress with
      | .ok o => (.ok (o.location, o.pageCrossed), { c with pc := o.next })
      | .error refused => (.error ((c.skip mode).modeFault refused), c.skip mode) := by
  unfold resolveAddress operandAt
  rw [resolveOperand_eq]
  cases h : c.locate c.pc mode with
  | none =>
    obtain rfl := locate_eq_none_iff.mp h
    simp [modeFault, skip, AddressingMode.operandLength]
  | some r =>
    obtain ⟨operand, pageCrossed⟩ := r
    cases operand <;>
      simp [Operand.isAddress, Operand.address?, Operands.location, modeFault, skip]

end Cpu

end Core65C02
