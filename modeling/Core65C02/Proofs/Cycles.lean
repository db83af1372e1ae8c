import Core65C02.Proofs.Control
import Core65C02.Proofs.Page
import Mathlib.Algebra.BigOperators.Group.Finset.Basic

/-!
# What instructions cost

The cycles of an instruction beyond its base cost are charged while it is executed. The rule is
stated here by mnemonic, from the bytes in memory and the flags before the step. The main statement
is that the charges are those of the rule, and that the count of cycles grows by exactly the cost of
the instructions that are executed, however many steps are made.
-/

namespace Core65C02

namespace Cpu

/-- The address and the index whose sum is the operand, in the modes that index a whole address. -/
def baseAndIndex? (c : Cpu) : AddressingMode → Option (UInt16 × UInt8)
  | .absoluteX => some (c.memory.readWord (c.pc + 1), c.x)
  | .absoluteY => some (c.memory.readWord (c.pc + 1), c.y)
  | .zeroPageIndirectY => some (c.memory.readZeroPageWord (c.memory.read (c.pc + 1)), c.y)
  | _ => none

/-- Whether the index carries out of the low byte of the address to which it is added. -/
def indexCarries (c : Cpu) (mode : AddressingMode) : Bool :=
  (c.baseAndIndex? mode).any fun (base, index) => 256 ≤ base.toNat % 256 + index.toNat

/-- What a branch costs beyond its base cost if it is taken: one cycle, and one more if it leads to
another page than that of the instruction that follows. -/
def branchSurcharge (c : Cpu) (d : Descriptor) : Nat :=
  if page (c.branchTarget d) = page (c.following d) then 1 else 2

/-- What the instruction at PC costs beyond its base cost. -/
def surcharge (c : Cpu) (d : Descriptor) : Nat :=
  let indexing := (c.indexCarries d.mode).toNat
  match d.mnemonic with
  | .adc | .sbc => indexing + c.status.decimalMode.toNat
  | .and | .ora | .eor | .bit | .cmp | .cpx | .cpy | .lda | .ldx | .ldy => indexing
  | .asl | .lsr | .rol | .ror => indexing
  | m => if c.takesBranch m then c.branchSurcharge d else 0

/-- What the next step costs: the base cost and the surcharge of the instruction that it executes,
and nothing if it executes none. -/
def cost (c : Cpu) : Nat :=
  c.executing?.elim 0 fun d => d.cycles.toNat + c.surcharge d

end Cpu

/-- The greatest surcharge of an instruction in any state. -/
def Descriptor.greatestSurcharge (d : Descriptor) : Nat :=
  let indexing := if d.mode ∈ [.absoluteX, .absoluteY, .zeroPageIndirectY] then 1 else 0
  match d.mnemonic.operation with
  | .add | .subtract => indexing + 1
  | .logic _ | .testBits | .compare _ | .load _ => indexing
  | .modify f => if f.paysForPageCrossing then indexing else 0
  | .branch _ | .branchOnBit _ => 2
  | _ => 0

/-- Every row costs one cycle at least, two beyond its base cost at most, and seven in all. -/
theorem cycles_of_mem_standardRows : ∀ d ∈ standardRows,
    d.greatestSurcharge ≤ 2 ∧ 1 ≤ d.cycles.toNat ∧ d.cycles.toNat + d.greatestSurcharge ≤ 7 := by
  decide +kernel

/-- A distance is an operand of branches only. -/
theorem access_of_relative_of_mem_standardRows :
    ∀ d ∈ standardRows, d.mode = .relative → d.mnemonic.operation.access = .address := by
  decide +kernel

namespace Cpu

/-- The rule by operation. -/
theorem surcharge_eq (c : Cpu) (d : Descriptor) :
    c.surcharge d = match d.mnemonic.operation with
      | .add | .subtract => (c.indexCarries d.mode).toNat + c.status.decimalMode.toNat
      | .logic _ | .testBits | .compare _ | .load _ => (c.indexCarries d.mode).toNat
      | .modify f => if f.paysForPageCrossing then (c.indexCarries d.mode).toNat else 0
      | .branch _ | .branchOnBit _ => if c.takesBranch d.mnemonic then c.branchSurcharge d else 0
      | _ => 0 := by
  unfold surcharge
  cases d.mnemonic <;> rfl

/-- Only the modes with an index on an address of 16 bits can cross a page. -/
theorem toNat_indexCarries_le (c : Cpu) (mode : AddressingMode) :
    (c.indexCarries mode).toNat ≤
      if mode ∈ [.absoluteX, .absoluteY, .zeroPageIndirectY] then 1 else 0 := by
  by_cases hmode : mode ∈ [.absoluteX, .absoluteY, .zeroPageIndirectY]
  · rw [if_pos hmode]
    exact Bool.toNat_le _
  · have hnone : c.baseAndIndex? mode = none := by
      cases mode <;> first | rfl | exact absurd (by decide) hmode
    simp [indexCarries, hnone]

/-- No instruction costs more beyond its base cost than its mnemonic and its mode allow. -/
theorem surcharge_le (c : Cpu) (d : Descriptor) : c.surcharge d ≤ d.greatestSurcharge := by
  have hindexing := c.toNat_indexCarries_le d.mode
  have hdecimal : c.status.decimalMode.toNat ≤ 1 := Bool.toNat_le _
  have hbranch : c.branchSurcharge d ≤ 2 := by
    unfold branchSurcharge
    split <;> omega
  rw [surcharge_eq]
  unfold Descriptor.greatestSurcharge
  cases d.mnemonic.operation with
  | add => exact Nat.add_le_add hindexing hdecimal
  | subtract => exact Nat.add_le_add hindexing hdecimal
  | logic _ | testBits | compare _ | load _ => exact hindexing
  | modify f =>
    by_cases hf : f.paysForPageCrossing = true
    · simpa only [if_pos hf] using hindexing
    · simp [hf]
  | branch _ | branchOnBit _ =>
    by_cases htaken : c.takesBranch d.mnemonic = true
    · simpa only [if_pos htaken] using hbranch
    · simp [htaken]
  | _ => exact Nat.zero_le _

/-- In the modes of bytes and addresses the crossing of a page is a carry of the index. -/
theorem pageCrossed_of_locate {c : Cpu} {mode : AddressingMode} {r : Resolved}
    (hr : c.locate (c.pc + 1) mode = some r) (hmode : mode ≠ .relative) :
    r.pageCrossed = c.indexCarries mode := by
  cases mode <;> cases hr <;> first
    | exact absurd rfl hmode
    | simp [indexed, indexCarries, baseAndIndex?, pagesDiffer_add]

/-- A page is crossed where the index carries out of the low byte. -/
theorem pageCrossed_of_operands {c : Cpu} {d : Descriptor} {access : Operation.Access}
    {o : Operands} (ho : c.operands (c.pc + 1) d access = .ok o) (haccess : access ≠ .nothing)
    (hmode : d.mode ≠ .relative) : o.pageCrossed = c.indexCarries d.mode := by
  obtain ⟨r, hr, _, hcrossed, _⟩ := locate_of_operands ho haccess
  rw [hcrossed, pageCrossed_of_locate hr hmode]

/-- The crossing of a branch is counted from the instruction that follows. -/
theorem pageCrossed_of_relative {c : Cpu} {d : Descriptor} {o : Operands}
    (hmode : d.mode = .relative) (ho : c.operands (c.pc + 1) d .address = .ok o)
    (hnext : o.next = c.following d) :
    o.pageCrossed = pagesDiffer (c.following d) (c.branchTarget d) := by
  rw [← location_of_relative hmode ho hnext, ← hnext]
  rw [operands_of_relative hmode] at ho
  cases ho
  rfl

/-- The target of a branch on a bit is compared with the instruction that follows. -/
theorem targetCrossed_of_bitBranch {c : Cpu} {d : Descriptor} {o : Operands}
    (hmode : d.mode = .zeroPage) (hsecond : d.secondMode = some .relative)
    (ho : c.operands (c.pc + 1) d .addressAndTarget = .ok o) (hnext : o.next = c.following d) :
    o.targetCrossed = pagesDiffer (c.following d) (c.branchTarget d) := by
  rw [← (location_and_target_of_bitBranch hmode hsecond ho hnext).2, ← hnext]
  rw [operands_of_bitBranch hmode hsecond] at ho
  cases ho
  rfl

/-- What is charged for a branch that is taken is its surcharge, and a branch that is not taken is
free of it. -/
theorem toNat_branchCycles (c : Cpu) (d : Descriptor) (taken : Bool) :
    (Operation.branchCycles taken (pagesDiffer (c.following d) (c.branchTarget d))).toNat =
      if taken then c.branchSurcharge d else 0 := by
  rw [pagesDiffer_eq]
  unfold Operation.branchCycles branchSurcharge
  by_cases hpage : page (c.branchTarget d) = page (c.following d)
  · cases taken <;> simp [hpage]
  · cases taken <;> simp [hpage, Ne.symm hpage]

/-- An operation charges what the rule says. -/
theorem extraCycles_eq_surcharge {c : Cpu} {d : Descriptor} {o : Operands} (hd : d ∈ standardRows)
    (ho : c.operands (c.pc + 1) d d.mnemonic.operation.access = .ok o)
    (hnext : o.next = c.following d) :
    (d.mnemonic.operation.extraCycles d o c).toNat = c.surcharge d := by
  have hrelative := access_of_relative_of_mem_standardRows d hd
  have hsteers := steersIn_of_mem_standardRows d hd
  have hsuits := suits_of_mem_standardRows d hd
  rw [surcharge_eq]
  cases hop : d.mnemonic.operation with
  | add | subtract =>
    rw [hop] at ho hrelative
    have hcrossed := pageCrossed_of_operands ho (by simp [Operation.access])
      fun h => absurd (hrelative h) (by simp [Operation.access])
    simp only [Operation.extraCycles, hcrossed]
    cases c.indexCarries d.mode <;> cases c.status.decimalMode <;> rfl
  | logic _ | testBits | compare _ | load _ =>
    rw [hop] at ho hrelative
    have hcrossed := pageCrossed_of_operands ho (by simp [Operation.access])
      fun h => absurd (hrelative h) (by simp [Operation.access])
    simp only [Operation.extraCycles, hcrossed]
    cases c.indexCarries d.mode <;> rfl
  | modify f =>
    rw [hop] at ho hrelative
    have hcrossed := pageCrossed_of_operands ho (by simp [Operation.access])
      fun h => absurd (hrelative h) (by simp [Operation.access])
    simp only [Operation.extraCycles, hcrossed]
    cases f.paysForPageCrossing <;> cases c.indexCarries d.mode <;> rfl
  | branch condition =>
    rw [hop] at ho hsteers
    have hmode : d.mode = .relative := by simpa [Operation.steersIn] using hsteers
    rw [Operation.extraCycles, pageCrossed_of_relative hmode ho hnext, toNat_branchCycles,
      takesBranch_of_branch c hop]
  | branchOnBit state =>
    rw [hop] at ho
    obtain ⟨hmode, hsecond, _⟩ :
        d.mode = .zeroPage ∧ d.secondMode = some .relative ∧ d.bytes = 3 := by
      simpa [hop, Operation.access, Descriptor.suits] using hsuits
    have hlocation := (location_and_target_of_bitBranch hmode hsecond ho hnext).1
    rw [Operation.extraCycles, targetCrossed_of_bitBranch hmode hsecond ho hnext,
      toNat_branchCycles, bitHolds_eq_takesBranch hd hop hlocation]
  | _ => rfl

/-- An instruction that is executed is recorded with its charges, and its cost is counted. -/
theorem executed_cost {c : Cpu} {d : Descriptor} {o : Operands} (hd : c.descriptor? = some d)
    (ho : c.operands (c.pc + 1) d d.mnemonic.operation.access = .ok o)
    (hnext : o.next = c.following d) :
    (∃ extra : UInt8, (c.executed d d.mnemonic.operation o).last = some ⟨d, c.pc, extra⟩ ∧
      extra.toNat = c.surcharge d) ∧
    (c.executed d d.mnemonic.operation o).totalCycles =
      c.totalCycles + (d.cycles.toNat + c.surcharge d) := by
  have hextra := extraCycles_eq_surcharge (descriptor?_mem hd).1 ho hnext
  rw [executed_eq, hextra]
  refine ⟨⟨d.mnemonic.operation.extraCycles d o c, ?_, hextra⟩, rfl⟩
  exact (perform_frame d.mnemonic.operation d o _).1

/-- A step after the end costs nothing. -/
theorem cost_of_halted {c : Cpu} (hhalted : c.halted = true) : c.cost = 0 := by
  rw [cost, executing?_of_halted hhalted]
  rfl

/-- A byte without a row costs nothing. -/
theorem cost_of_undefined {c : Cpu} (hhalted : c.halted = false) (hd : c.descriptor? = none) :
    c.cost = 0 := by
  rw [cost, executing?_of_not_halted hhalted, hd]
  rfl

/-- An instruction costs its base cost and its surcharge. -/
theorem cost_of_defined {c : Cpu} {d : Descriptor} (hhalted : c.halted = false)
    (hd : c.descriptor? = some d) : c.cost = d.cycles.toNat + c.surcharge d := by
  rw [cost, executing?_of_not_halted hhalted, hd]
  rfl

/-- Every step counts its cost. -/
theorem step_totalCycles {c : Cpu} (hdispatch : c.dispatch = .standard) :
    c.step.cpu.totalCycles = c.totalCycles + c.cost := by
  have hstep := standardStepsTo_step hdispatch
  generalize c.step = out at hstep ⊢
  cases hstep with
  | halted hhalted => rw [cost_of_halted hhalted, Nat.add_zero]
  | undefined hhalted hd => rw [cost_of_undefined hhalted hd, Nat.add_zero]
  | executed hhalted d hd o ho hnext =>
    rw [cost_of_defined hhalted hd]
    exact (executed_cost hd ho hnext).2

/-- The cycles of a run are the costs of its steps. -/
theorem after_totalCycles {c : Cpu} (hdispatch : c.dispatch = .standard) (n : Nat) :
    (c.after n).totalCycles = c.totalCycles + ∑ i ∈ Finset.range n, (c.after i).cost := by
  induction n with
  | zero => rfl
  | succ n ih =>
    have hafter : (c.after n).dispatch = .standard := (c.after_dispatch n).trans hdispatch
    rw [after_succ, step_totalCycles hafter, ih, Finset.sum_range_succ, Nat.add_assoc]

/-- Cycles are accounted for exactly. An instruction that is executed is recorded with the surcharge
of the rule, which is two at most, so that the bound on charges is never felt; with its base cost it
makes between one and seven cycles. Steps that fail or find the program ended cost nothing. And
after any number of steps the count has grown by the costs of the instructions that were executed
on the way. -/
theorem step_cost_exact (c : Cpu) (hdispatch : c.dispatch = .standard) :
    (∀ r, c.halted = false → c.step.result = .ok r →
      ∃ d extra, c.descriptor? = some d ∧ c.step.cpu.last = some ⟨d, c.pc, extra⟩ ∧
        extra.toNat = c.surcharge d ∧ c.surcharge d ≤ 2 ∧
        c.cost = d.cycles.toNat + c.surcharge d ∧ 1 ≤ c.cost ∧ c.cost ≤ 7) ∧
    (∀ fault, c.halted = true ∨ c.step.result = .error fault → c.cost = 0) ∧
    ∀ n, (c.after n).totalCycles = c.totalCycles + ∑ i ∈ Finset.range n, (c.after i).cost := by
  refine ⟨fun r hhalted hresult => ?_, fun fault hidle => ?_, after_totalCycles hdispatch⟩
  · have hstep := standardStepsTo_step hdispatch
    generalize c.step = out at hstep hresult ⊢
    cases hstep with
    | halted hhalted' =>
      rw [hhalted] at hhalted'
      cases hhalted'
    | undefined => cases hresult
    | executed _ d hd o ho hnext =>
      obtain ⟨⟨extra, hlast, hextra⟩, _⟩ := executed_cost hd ho hnext
      obtain ⟨hgreatest, hpositive, hbound⟩ := cycles_of_mem_standardRows d (descriptor?_mem hd).1
      have hle := c.surcharge_le d
      have hcost := cost_of_defined hhalted hd
      exact ⟨d, extra, hd, hlast, hextra, by omega, hcost, by omega, by omega⟩
  · rcases hidle with hhalted | hresult
    · exact cost_of_halted hhalted
    · have hstep := standardStepsTo_step hdispatch
      generalize c.step = out at hstep hresult
      cases hstep with
      | halted hhalted => exact cost_of_halted hhalted
      | undefined hhalted hd => exact cost_of_undefined hhalted hd
      | executed => cases hresult

/-- A processor about to subtract decimal digits from behind a pointer, with an index that leads to
another page: nothing costs more. -/
def subtracting : Cpu where
  y := 0x01
  pc := 0xFFFF
  status := { decimalMode := true }
  memory := (((Memory.zero.write 0xFFFF 0xF1).write 0x0000 0x10).write 0x0010 0xFF).write 0x0011 0x12

/-- One cycle is charged for the page and one for the decimal digits, so that there are seven. -/
theorem step_cost_exact_subtracting :
    subtracting.dispatch = .standard ∧
      (∃ extra, subtracting.step.cpu.last =
        some ⟨.single 0xF1 .sbc .zeroPageIndirectY 5, 0xFFFF, extra⟩ ∧ extra.toNat = 2) ∧
      subtracting.step.cpu.totalCycles = 7 := by
  have hopcode : subtracting.opcode = 0xF1 := by simp [opcode, subtracting, Memory.read_write]
  have hd : subtracting.descriptor? = some (.single 0xF1 .sbc .zeroPageIndirectY 5) := by
    rw [descriptor?_eq_find?, hopcode]
    decide +kernel
  have hcarries : subtracting.indexCarries .zeroPageIndirectY = true := by
    simp [indexCarries, baseAndIndex?, subtracting, Memory.readZeroPageWord, Memory.read_write]
  have hsurcharge : subtracting.surcharge (.single 0xF1 .sbc .zeroPageIndirectY 5) = 2 := by
    simp only [surcharge, Descriptor.single, hcarries]
    rfl
  obtain ⟨o, _, _, hstep⟩ := step_standard rfl rfl hd
  obtain ⟨hexecuted, _, htotal⟩ := step_cost_exact subtracting rfl
  obtain ⟨d, extra, hd', hlast, hextra, _, hcost, _⟩ :=
    hexecuted _ rfl (congrArg StepOutcome.result hstep)
  obtain rfl : Descriptor.single 0xF1 .sbc .zeroPageIndirectY 5 = d :=
    Option.some.inj (hd.symm.trans hd')
  have hzero (c : Cpu) : c.after 0 = c := rfl
  have hone (c : Cpu) : c.after 1 = c.step.cpu := rfl
  have hcount := htotal 1
  rw [Finset.sum_range_one, hone, hzero, hcost, hsurcharge] at hcount
  exact ⟨rfl, ⟨extra, hlast, hextra.trans hsurcharge⟩, hcount⟩

end Cpu

end Core65C02
