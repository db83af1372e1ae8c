import Core65C02.Proofs.Step

/-!
# Programs that have ended

A step says that the program has ended exactly if the processor is halted after it, whatever
operations the dispatch gives to the mnemonics, and a halted processor stays as it is.
-/

namespace Core65C02.Cpu

/-- Only one operation halts the processor, and none sets it going again. -/
theorem halted_perform (op : Operation) (d : Descriptor) (o : Operands) (c : Cpu) :
    (op.perform d o c).halted = (c.halted || op == .halt) := by
  cases op with
  | modify f =>
    unfold Operation.perform
    cases o.operand <;> exact (Bool.or_false _).symm
  | testBits => by_cases hm : d.mode = .immediate <;> simp [Operation.perform, hm, testSelected]
  | branch condition => cases h : c.holds condition <;> simp [Operation.perform, h]
  | branchOnBit state => cases h : Operation.bitHolds d o c state <;> simp [Operation.perform, h]
  | count r up | load r | pull r | transfer source r =>
    cases r <;> exact (Bool.or_false _).symm
  | putFlag f value => cases f <;> exact (Bool.or_false _).symm
  | halt => exact (Bool.or_true _).symm
  | _ => exact (Bool.or_false _).symm

/-- Only the operation that halts finishes the program. -/
theorem result_eq_finished_iff (op : Operation) : op.result = .finished ↔ op = .halt := by
  cases op <;> simp [Operation.result]

/-- A step finds or makes the program ended exactly if the processor is halted after it. -/
theorem step_result_eq_finished_iff (c : Cpu) :
    c.step.result = .ok .finished ↔ c.step.cpu.halted = true := by
  have hstep := c.stepsTo_step
  generalize c.step = out at hstep ⊢
  cases hstep with
  | halted hhalted => simp [hhalted]
  | undefined hhalted => simp [hhalted]
  | unassigned hhalted => simp [recorded, hhalted]
  | refused hhalted => simp [recorded, hhalted]
  | executed hhalted d _ op _ o =>
    have hbefore : (c.supplied d o (op.extraCycles d o c)).halted = false := hhalted
    simp [executed_eq, halted_perform, hbefore, result_eq_finished_iff]

/-- Steps of a halted processor change nothing. -/
theorem after_of_halted {c : Cpu} (hhalted : c.halted = true) (n : Nat) : c.after n = c := by
  induction n with
  | zero => rfl
  | succ n ih => rw [after_succ, ih, step_of_halted hhalted]

end Core65C02.Cpu
