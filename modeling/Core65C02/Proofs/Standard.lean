import Core65C02.Proofs.Opcode
import Core65C02.Proofs.Step

/-!
# Steps of the standard dispatch

With the standard dispatch an opcode that is in the table is always executed: its operation finds
the operands it needs, and they end where the instruction ends.
-/

namespace Core65C02.Cpu

/-- What is found for the opcode at PC is a row for it. -/
theorem descriptor?_mem {c : Cpu} {d : Descriptor} (hd : c.descriptor? = some d) :
    d ∈ standardRows ∧ d.opcode = c.opcode :=
  OpcodeTable.mem_of_get?_ofList hd

/-- The row that is found for the opcode at PC is the last one for it. -/
theorem descriptor?_eq_find? (c : Cpu) :
    c.descriptor? = standardRows.reverse.find? fun d => d.opcode == c.opcode :=
  OpcodeTable.get?_ofList standardRows c.opcode

/-- What has no descriptor is a byte without a row. -/
theorem descriptor?_eq_none_iff {c : Cpu} :
    c.descriptor? = none ↔ ∀ d ∈ standardRows, d.opcode ≠ c.opcode := by
  rw [descriptor?_eq_find?, List.find?_eq_none]
  simp only [List.mem_reverse, beq_iff_eq, ne_eq]

/-- Only the immediate mode has a literal, and the other modes but that of the accumulator have an
address. -/
theorem locate_operand {c : Cpu} {pc : UInt16} {mode : AddressingMode} {r : Resolved}
    (hr : c.locate pc mode = some r) :
    (mode ≠ .immediate → r.operand.isLiteral = false) ∧
      (mode ≠ .accumulator → mode ≠ .immediate → r.operand.isAddress = true) := by
  cases mode <;> cases hr <;> simp [indexed, Operand.isLiteral, Operand.isAddress, Operand.address?]

/-- A mode other than the implied one has an operand, and PC ends behind its bytes. -/
theorem exists_operandAt {c : Cpu} {pc : UInt16} {mode : AddressingMode}
    (accepts : Operand → Bool) (hmode : mode ≠ .implied)
    (haccepts : ∀ r, c.locate pc mode = some r → accepts r.operand = true) :
    ∃ o, c.operandAt pc mode accepts = .ok o ∧ o.next = pc + mode.operandLength.toUInt16 := by
  unfold operandAt
  cases hr : c.locate pc mode with
  | none => exact absurd (locate_eq_none_iff.mp hr) hmode
  | some r => exact ⟨_, if_pos (haccepts r hr), rfl⟩

/-- Behind the opcode and the operand there is the end of the instruction. -/
theorem add_operandLength (pc : UInt16) (mode : AddressingMode) :
    pc + 1 + mode.operandLength.toUInt16 = pc + (1 + mode.operandLength).toUInt16 := by
  cases mode <;> simp [AddressingMode.operandLength, UInt16.add_assoc]

/-- A descriptor that suits an access has operands for it, and they end where the instruction
ends. -/
theorem exists_operands {c : Cpu} {d : Descriptor} {access : Operation.Access}
    (hsuits : d.suits access = true) :
    ∃ o, c.operands (c.pc + 1) d access = .ok o ∧ o.next = c.pc + d.bytes.toUInt16 := by
  unfold operands
  cases access with
  | nothing =>
    have hbytes : d.bytes = 1 := by simpa [Descriptor.suits] using hsuits
    exact ⟨_, rfl, by rw [hbytes]; rfl⟩
  | value =>
    obtain ⟨hmode, hbytes⟩ : d.mode ≠ .implied ∧ d.bytes = 1 + d.mode.operandLength := by
      simpa [Descriptor.suits] using hsuits
    rw [hbytes, ← add_operandLength]
    exact exists_operandAt _ hmode fun _ _ => rfl
  | place =>
    obtain ⟨⟨hmode, hliteral⟩, hbytes⟩ :
        (d.mode ≠ .implied ∧ d.mode ≠ .immediate) ∧ d.bytes = 1 + d.mode.operandLength := by
      simpa [Descriptor.suits] using hsuits
    rw [hbytes, ← add_operandLength]
    exact exists_operandAt _ hmode fun r hr => by simp [(locate_operand hr).1 hliteral]
  | address =>
    obtain ⟨⟨hmode, haccumulator, hliteral⟩, hbytes⟩ :
        (d.mode ≠ .implied ∧ d.mode ≠ .accumulator ∧ d.mode ≠ .immediate) ∧
          d.bytes = 1 + d.mode.operandLength := by
      simpa [Descriptor.suits] using hsuits
    rw [hbytes, ← add_operandLength]
    exact exists_operandAt _ hmode fun r hr => (locate_operand hr).2 haccumulator hliteral
  | addressAndTarget =>
    obtain ⟨hmode, hsecond, hbytes⟩ :
        d.mode = .zeroPage ∧ d.secondMode = some .relative ∧ d.bytes = 3 := by
      simpa [Descriptor.suits] using hsuits
    refine ⟨_, operands_of_bitBranch hmode hsecond, ?_⟩
    rw [hbytes]
    change c.pc + 1 + 1 + 1 = c.pc + 3
    rw [UInt16.add_assoc, UInt16.add_assoc]
    rfl

/-- A step of the standard dispatch at an opcode that is in the table takes effect. -/
theorem step_standard {c : Cpu} {d : Descriptor} (hdispatch : c.dispatch = .standard)
    (hhalted : c.halted = false) (hd : c.descriptor? = some d) :
    ∃ o, c.operands (c.pc + 1) d d.mnemonic.operation.access = .ok o ∧
      o.next = c.pc + d.bytes.toUInt16 ∧
      c.step = ⟨c.executed d d.mnemonic.operation o, .ok d.mnemonic.operation.result,
        d.mnemonic.operation.report o (c.supplied d o 0)⟩ := by
  have hop : c.dispatch d.mnemonic = some d.mnemonic.operation := by
    rw [hdispatch]
    rfl
  obtain ⟨o, ho, hnext⟩ := exists_operands (suits_of_mem_standardRows d (descriptor?_mem hd).1)
  exact ⟨o, ho, hnext, (StepsTo.executed hhalted d hd _ hop o ho).step_eq⟩

/-- The ways in which a step of the standard dispatch can go. Of those of any dispatch, the two are
missing in which an operation or an operand is not there. -/
inductive StandardStepsTo (c : Cpu) : StepOutcome → Prop
  /-- The program has ended before. -/
  | halted (hhalted : c.halted = true) : StandardStepsTo c ⟨c, .ok .finished, []⟩
  /-- The byte at PC is no opcode. -/
  | undefined (hhalted : c.halted = false) (hd : c.descriptor? = none) :
    StandardStepsTo c ⟨c, .error (.unsupportedInstruction c.opcode c.pc), []⟩
  /-- The operation of the mnemonic takes effect. -/
  | executed (hhalted : c.halted = false) (d : Descriptor) (hd : c.descriptor? = some d)
    (o : Operands) (ho : c.operands (c.pc + 1) d d.mnemonic.operation.access = .ok o)
    (hnext : o.next = c.pc + d.bytes.toUInt16) :
    StandardStepsTo c ⟨c.executed d d.mnemonic.operation o, .ok d.mnemonic.operation.result,
      d.mnemonic.operation.report o (c.supplied d o 0)⟩

/-- Every step of the standard dispatch goes one of these ways. -/
theorem standardStepsTo_step {c : Cpu} (hdispatch : c.dispatch = .standard) :
    c.StandardStepsTo c.step := by
  by_cases hhalted : c.halted = true
  · rw [step_of_halted hhalted]
    exact .halted hhalted
  rw [Bool.not_eq_true] at hhalted
  cases hd : c.descriptor? with
  | none =>
    rw [(StepsTo.undefined hhalted hd).step_eq]
    exact .undefined hhalted hd
  | some d =>
    obtain ⟨o, ho, hnext, hstep⟩ := step_standard hdispatch hhalted hd
    rw [hstep]
    exact .executed hhalted d hd o ho hnext

/-- The descriptor of the instruction that the next step executes, if it is one that the table
knows and the program has not ended. -/
def executing? (c : Cpu) : Option Descriptor := if c.halted then none else c.descriptor?

/-- After the end no instruction is executed. -/
theorem executing?_of_halted {c : Cpu} (hhalted : c.halted = true) : c.executing? = none :=
  if_pos hhalted

/-- Before the end the instruction at PC is executed, if it is one. -/
theorem executing?_of_not_halted {c : Cpu} (hhalted : c.halted = false) :
    c.executing? = c.descriptor? := by
  simp [executing?, hhalted]

/-- An instruction is executed if the program has not ended and its opcode is at PC. -/
theorem executing?_eq_some_iff {c : Cpu} {d : Descriptor} :
    c.executing? = some d ↔ c.halted = false ∧ c.descriptor? = some d := by
  cases hhalted : c.halted with
  | true => simp [executing?_of_halted hhalted]
  | false => simp [executing?_of_not_halted hhalted]

end Core65C02.Cpu
