import Core65C02.Proofs.Effect

/-!
# What a step can do

A step has five ways to go, and the relation below lists them with the state that each leads to.
Every later fact about steps is a case analysis over it. Runs of steps are iterations of the step,
whatever its result.
-/

namespace Core65C02

/-- To look an opcode up is to find its row, or else a fault that names the opcode and where it was
fetched. -/
theorem OpcodeTable.lookup_eq (table : OpcodeTable) (opcode : UInt8) (pc : UInt16) :
    table.lookup opcode pc =
      (table.get? opcode).elim (.error (.unsupportedInstruction opcode pc)) .ok := by
  unfold lookup
  cases table.get? opcode <;> rfl

namespace Cpu

/-- The byte at PC. -/
def opcode (c : Cpu) : UInt8 := c.memory.read c.pc

/-- The descriptor of the opcode at PC, if it has one. -/
def descriptor? (c : Cpu) : Option Descriptor := OpcodeTable.standard.get? c.opcode

/-- The processor with a record of an instruction that has been fetched but not executed. -/
def recorded (c : Cpu) (d : Descriptor) : Cpu := { c with last := some ⟨d, c.pc, 0⟩ }

/-- The processor after an operation has taken effect on the operands that it got. -/
def executed (c : Cpu) (d : Descriptor) (op : Operation) (o : Operands) : Cpu :=
  (op.perform d o (c.supplied d o (op.extraCycles d o c))).countCycles

/-- The ways in which a step can go. -/
inductive StepsTo (c : Cpu) : StepOutcome → Prop
  /-- The program has ended before. -/
  | halted (hhalted : c.halted = true) : StepsTo c ⟨c, .ok .finished, []⟩
  /-- The byte at PC is no opcode. -/
  | undefined (hhalted : c.halted = false) (hd : c.descriptor? = none) :
    StepsTo c ⟨c, .error (.unsupportedInstruction c.opcode c.pc), []⟩
  /-- The mnemonic has no operation. -/
  | unassigned (hhalted : c.halted = false) (d : Descriptor) (hd : c.descriptor? = some d)
    (hop : c.dispatch d.mnemonic = none) :
    StepsTo c ⟨c.recorded d, .error (.unsupportedInstruction c.opcode c.pc), []⟩
  /-- The operation cannot work on an operand. -/
  | refused (hhalted : c.halted = false) (d : Descriptor) (hd : c.descriptor? = some d)
    (op : Operation) (hop : c.dispatch d.mnemonic = some op) (mode : AddressingMode)
    (ho : c.operands (c.pc + 1) d op.access = .error mode) :
    StepsTo c ⟨c.recorded d, .error (.unsupportedAddressingMode mode c.pc), []⟩
  /-- The operation takes effect. -/
  | executed (hhalted : c.halted = false) (d : Descriptor) (hd : c.descriptor? = some d)
    (op : Operation) (hop : c.dispatch d.mnemonic = some op) (o : Operands)
    (ho : c.operands (c.pc + 1) d op.access = .ok o) :
    StepsTo c ⟨c.executed d op o, .ok op.result, op.report o (c.supplied d o 0)⟩

/-- A step after the end changes nothing. -/
theorem step_of_halted {c : Cpu} (hhalted : c.halted = true) :
    c.step = ⟨c, .ok .finished, []⟩ := by
  unfold step
  rw [if_pos hhalted]

/-- A step before the end looks the opcode up, takes its operation and executes it. A fault leaves
PC where it was. -/
theorem step_of_not_halted {c : Cpu} (hhalted : c.halted = false) :
    c.step = match OpcodeTable.standard.lookup c.opcode c.pc with
      | .error fault => ⟨c, .error fault, []⟩
      | .ok d =>
        match c.dispatch d.mnemonic with
        | none => ⟨c.recorded d, .error (.unsupportedInstruction c.opcode c.pc), []⟩
        | some op =>
          match op.execute d ⟨c.fetched d, []⟩ with
          | .ok result e => ⟨e.cpu.countCycles, .ok result, e.reports⟩
          | .error fault e => ⟨{ e.cpu with pc := c.pc }, .error fault, e.reports⟩ := by
  unfold step opcode
  rw [if_neg (by simp [hhalted])]
  -- the table is kept opaque, for it must not be computed
  generalize OpcodeTable.standard = table
  rfl

/-- Every step goes one of these ways. -/
theorem stepsTo_step (c : Cpu) : c.StepsTo c.step := by
  by_cases hhalted : c.halted = true
  · rw [step_of_halted hhalted]
    exact .halted hhalted
  rw [Bool.not_eq_true] at hhalted
  rw [step_of_not_halted hhalted, OpcodeTable.lookup_eq]
  cases hd : c.descriptor? with
  | none =>
    rw [show OpcodeTable.standard.get? c.opcode = none from hd]
    exact .undefined hhalted hd
  | some d =>
    rw [show OpcodeTable.standard.get? c.opcode = some d from hd]
    simp only [Option.elim]
    cases hop : c.dispatch d.mnemonic with
    | none => exact .unassigned hhalted d hd hop
    | some op =>
      have htakes := takes_execute op c d
      unfold Takes at htakes
      cases ho : c.operands (c.pc + 1) d op.access with
      | error mode =>
        rw [ho] at htakes
        obtain ⟨pc, hrefused⟩ := htakes
        simp only [hrefused]
        exact .refused hhalted d hd op hop mode ho
      | ok o =>
        simp only [ho] at htakes
        simp only [htakes]
        exact .executed hhalted d hd op hop o ho

/-- A step can go in one way only. -/
theorem StepsTo.unique {c : Cpu} {out out' : StepOutcome} (h : c.StepsTo out)
    (h' : c.StepsTo out') : out = out' := by
  cases h <;> cases h' <;> simp_all

/-- A step can go one way only. -/
theorem StepsTo.step_eq {c : Cpu} {out : StepOutcome} (h : c.StepsTo out) : c.step = out :=
  c.stepsTo_step.unique h

/-- In a memory of zeros the first instruction is a `BRK`. -/
theorem descriptor?_zeros : ({} : Cpu).descriptor? = some (.single 0x00 .brk .implied 7) := by
  decide +kernel

/-- It ends the program and reports nothing. -/
theorem step_zeros : ({} : Cpu).step.result = .ok .finished ∧ ({} : Cpu).step.report = [] := by
  rw [(StepsTo.executed rfl _ descriptor?_zeros .halt rfl _ rfl).step_eq]
  exact ⟨rfl, rfl⟩

/-- No operation touches the record of the last instruction, the count of cycles or the dispatch. -/
theorem perform_frame (op : Operation) (d : Descriptor) (o : Operands) (c : Cpu) :
    (op.perform d o c).last = c.last ∧ (op.perform d o c).totalCycles = c.totalCycles ∧
      (op.perform d o c).dispatch = c.dispatch := by
  cases op with
  | modify f =>
    unfold Operation.perform
    cases o.operand <;> exact ⟨rfl, rfl, rfl⟩
  | testBits => by_cases hm : d.mode = .immediate <;> simp [Operation.perform, hm, testSelected]
  | branch condition =>
    cases h : c.holds condition <;> simp [Operation.perform, h]
  | branchOnBit state =>
    cases h : Operation.bitHolds d o c state <;> simp [Operation.perform, h]
  | count r up | load r | pull r | transfer source r => simp [Operation.perform, drop]
  | putFlag f value => cases f <;> exact ⟨rfl, rfl, rfl⟩
  | _ => exact ⟨rfl, rfl, rfl⟩

/-- The cycles of the last instruction are added to the total. -/
theorem countCycles_of_last {c : Cpu} {i : Instruction} (hlast : c.last = some i) :
    c.countCycles = { c with totalCycles := c.totalCycles + i.cycles } := by
  unfold countCycles
  rw [hlast]

/-- An instruction that is executed adds its base cost and what its operation charges to the
total. -/
theorem executed_eq (c : Cpu) (d : Descriptor) (op : Operation) (o : Operands) :
    c.executed d op o =
      { op.perform d o (c.supplied d o (op.extraCycles d o c)) with
        totalCycles := c.totalCycles + (d.cycles.toNat + (op.extraCycles d o c).toNat) } := by
  obtain ⟨hlast, htotal, _⟩ := perform_frame op d o (c.supplied d o (op.extraCycles d o c))
  unfold executed
  rw [countCycles_of_last hlast, htotal]
  rfl

/-- The processor after a number of steps, whatever their results. -/
def after : Cpu → Nat → Cpu
  | c, 0 => c
  | c, n + 1 => c.step.cpu.after n

/-- The last of some steps follows the others. -/
theorem after_succ (c : Cpu) (n : Nat) : c.after (n + 1) = (c.after n).step.cpu := by
  induction n generalizing c with
  | zero => rfl
  | succ n ih => exact ih c.step.cpu

/-- The dispatch stays as it is. -/
theorem step_dispatch (c : Cpu) : c.step.cpu.dispatch = c.dispatch := by
  generalize h : c.step = out
  have hstep := c.stepsTo_step
  rw [h] at hstep
  cases hstep with
  | executed _ d _ op _ o _ =>
    rw [executed_eq]
    exact (perform_frame op d o _).2.2
  | _ => rfl

/-- Steps leave the dispatch as it is. -/
theorem after_dispatch (c : Cpu) (n : Nat) : (c.after n).dispatch = c.dispatch := by
  induction n generalizing c with
  | zero => rfl
  | succ n ih => exact (ih c.step.cpu).trans c.step_dispatch

/-- Two processors differ at most in the record of the last instruction. -/
def Alike (c c' : Cpu) : Prop := c' = { c with last := c'.last }

/-- A processor is like itself. -/
theorem Alike.refl (c : Cpu) : c.Alike c := rfl

/-- What is like something alike is alike. -/
theorem Alike.trans {c c' c'' : Cpu} (h : c.Alike c') (h' : c'.Alike c'') : c.Alike c'' := by
  unfold Alike at h h' ⊢
  rw [h', h]

/-- Operands do not depend on the record of the last instruction. -/
theorem operands_last (c : Cpu) (last : Option Instruction) (pc : UInt16) (d : Descriptor)
    (access : Operation.Access) :
    { c with last }.operands pc d access = c.operands pc d access := by
  have hlocate (pc : UInt16) (mode : AddressingMode) :
      { c with last }.locate pc mode = c.locate pc mode := by
    cases mode <;> rfl
  cases access <;> simp only [operands, operandAt, hlocate]

/-- The record of the last instruction is written by a step, but never read. -/
theorem Alike.stepsTo {c c' : Cpu} {out : StepOutcome} (h : c.Alike c') (hstep : c.StepsTo out) :
    ∃ out', c'.StepsTo out' ∧ out'.result = out.result ∧ out'.report = out.report ∧
      out.cpu.Alike out'.cpu := by
  rw [h]
  cases hstep with
  | halted hhalted => exact ⟨_, .halted hhalted, rfl, rfl, rfl⟩
  | undefined hhalted hd => exact ⟨_, .undefined hhalted hd, rfl, rfl, rfl⟩
  | unassigned hhalted d hd hop =>
    exact ⟨_, .unassigned (c := { c with last := c'.last }) hhalted d hd hop, rfl, rfl, rfl⟩
  | refused hhalted d hd op hop mode ho =>
    rw [← operands_last c c'.last] at ho
    exact ⟨_, .refused (c := { c with last := c'.last }) hhalted d hd op hop mode ho, rfl, rfl, rfl⟩
  | executed hhalted d hd op hop o ho =>
    rw [← operands_last c c'.last] at ho
    exact ⟨_, .executed (c := { c with last := c'.last }) hhalted d hd op hop o ho, rfl, rfl, rfl⟩

/-- Processors that are alike make the same step and stay alike. -/
theorem Alike.step {c c' : Cpu} (h : c.Alike c') :
    c'.step.result = c.step.result ∧ c'.step.report = c.step.report ∧
      c.step.cpu.Alike c'.step.cpu := by
  obtain ⟨out, hstep, hresult, hreport, halike⟩ := h.stepsTo c.stepsTo_step
  rw [hstep.step_eq]
  exact ⟨hresult, hreport, halike⟩

/-- Processors that are alike stay alike. -/
theorem Alike.after {c c' : Cpu} (h : c.Alike c') (n : Nat) : (c.after n).Alike (c'.after n) := by
  induction n generalizing c c' with
  | zero => exact h
  | succ n ih => exact ih h.step.2.2

end Cpu

end Core65C02
