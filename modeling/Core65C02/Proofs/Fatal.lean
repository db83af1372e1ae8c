import Core65C02.Proofs.Step

/-!
# Steps that fail

A step can fail after it has moved PC over the opcode and some operand bytes. The main statement
is that none of this remains: the processor is as it was but for the record of the last
instruction, and the failure repeats itself however often the step is tried again.
-/

namespace Core65C02.Cpu

/-- What a failing step leaves, and the fault it names. -/
theorem alike_of_step_error {c : Cpu} {fault : Fault} (hfault : c.step.result = .error fault) :
    c.Alike c.step.cpu ∧ c.step.report = [] ∧ fault.pc = c.pc ∧
      c.step.cpu.last = c.descriptor?.elim c.last fun d => some ⟨d, c.pc, 0⟩ := by
  have hstep := c.stepsTo_step
  generalize c.step = out at hfault hstep ⊢
  cases hstep with
  | halted => cases hfault
  | undefined _ hd =>
    cases hfault
    exact ⟨rfl, rfl, rfl, by rw [hd]; rfl⟩
  | unassigned _ d hd _ =>
    cases hfault
    exact ⟨rfl, rfl, rfl, by rw [hd]; rfl⟩
  | refused _ d hd _ _ mode _ =>
    cases hfault
    exact ⟨rfl, rfl, rfl, by rw [hd]; rfl⟩
  | executed => cases hfault

/-- A failing step is atomic and can be repeated: everything but the record of the last
instruction is as it was, nothing was reported, the fault names the unchanged PC, the record is
that of the failing opcode with no extra cycles (or is unchanged, if the byte is no opcode), and
every further step fails alike and changes no more than that. This holds for any dispatch, hence
for any that assigns standard operations to mnemonics. -/
theorem step_error_atomic (c : Cpu) (fault : Fault) (hfault : c.step.result = .error fault) :
    c.step.cpu = { c with last := c.step.cpu.last } ∧ c.step.report = [] ∧ fault.pc = c.pc ∧
      c.step.cpu.last = (c.descriptor?.elim c.last fun d => some ⟨d, c.pc, 0⟩) ∧
      ∀ n, (c.after n).step.result = .error fault ∧
        c.after n = { c with last := (c.after n).last } := by
  obtain ⟨halike, hreport, hpc, hlast⟩ := alike_of_step_error hfault
  refine ⟨halike, hreport, hpc, hlast, fun n => ?_⟩
  have hafter : c.Alike (c.after n) ∧ (c.after n).step.result = .error fault := by
    induction n with
    | zero => exact ⟨.refl c, hfault⟩
    | succ n ih =>
      obtain ⟨halike, hresult⟩ := ih
      rw [after_succ]
      have hnext := (alike_of_step_error hresult).1
      exact ⟨halike.trans hnext, hnext.step.1.trans hresult⟩
  exact ⟨hafter.2, hafter.1⟩

/-- A processor about to load a literal, whose loads of A have been given the operation
of stores. -/
def misassigned : Cpu where
  memory := Memory.zero.write 0 0xA9
  dispatch := Dispatch.standard.assign .lda .sta

/-- A store cannot use a literal, so the step fails. -/
theorem step_misassigned :
    misassigned.step.result = .error (.unsupportedAddressingMode .immediate 0) := by
  have hopcode : misassigned.opcode = 0xA9 := by simp [opcode, misassigned, Memory.read_write]
  have hd : misassigned.descriptor? = some (.single 0xA9 .lda .immediate 2) := by
    rw [descriptor?, hopcode]
    decide +kernel
  rw [(StepsTo.refused rfl _ hd (.store .a) rfl .immediate rfl).step_eq]
  rfl

/-- Nothing but the last instruction is different afterwards, and it fails in the same way ever
after. -/
theorem step_error_atomic_misassigned :
    misassigned.step.result = .error (.unsupportedAddressingMode .immediate 0) ∧
      misassigned.step.cpu = { misassigned with last := misassigned.step.cpu.last } ∧
      ∀ n, (misassigned.after n).step.result =
        .error (.unsupportedAddressingMode .immediate 0) := by
  obtain ⟨hcpu, _, _, _, hagain⟩ := step_error_atomic misassigned _ step_misassigned
  exact ⟨step_misassigned, hcpu, fun n => (hagain n).1⟩

end Core65C02.Cpu
