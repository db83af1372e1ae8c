import Core65C02.Cpu.Step
import Core65C02.Proofs.Operand

/-!
# Operands before effects

Operations take operands, charge cycles and change the processor in turn. Here the same is said in
two stages: the operands, which are functions of the state before the operation and can be
refused, and the effect, which is a function of the operands and cannot fail. The main statements
are that a refused operation has touched nothing but PC, and that any other has the effect.
-/

namespace Core65C02

namespace Cpu

/-- To set a register leaves PC alone. -/
@[simp] theorem pc_setRegister (c : Cpu) (r : Register) (value : UInt8) :
    (c.setRegister r value).pc = c.pc := by
  cases r <;> rfl

/-- To set a register leaves the last instruction alone. -/
@[simp] theorem last_setRegister (c : Cpu) (r : Register) (value : UInt8) :
    (c.setRegister r value).last = c.last := by
  cases r <;> rfl

/-- To set a register leaves the count of cycles alone. -/
@[simp] theorem totalCycles_setRegister (c : Cpu) (r : Register) (value : UInt8) :
    (c.setRegister r value).totalCycles = c.totalCycles := by
  cases r <;> rfl

/-- To set a register leaves the dispatch alone. -/
@[simp] theorem dispatch_setRegister (c : Cpu) (r : Register) (value : UInt8) :
    (c.setRegister r value).dispatch = c.dispatch := by
  cases r <;> rfl

/-- The word on top of the stack, its low byte on top. -/
def topWord (c : Cpu) : UInt16 := (c.drop.top.toUInt16 <<< 8) ||| c.top.toUInt16

/-- The processor after it took the opcode that `d` describes. -/
def fetched (c : Cpu) (d : Descriptor) : Cpu :=
  { c with pc := c.pc + 1, last := some ⟨d, c.pc, 0⟩ }

/-- The processor after it took the operands of the instruction that `d` describes, at a cost beyond
that of the instruction. -/
def supplied (c : Cpu) (d : Descriptor) (o : Operands) (extra : UInt8) : Cpu :=
  { c with pc := o.next, last := some ⟨d, c.pc, extra⟩ }

end Cpu

namespace Operation

/-- Whether a bit branch is taken: the bit of the opcode is in the given state. -/
def bitHolds (d : Descriptor) (o : Operands) (c : Cpu) (state : Bool) : Bool :=
  (c.memory.read o.location &&& bitMask d.bitIndex != 0) == state

/-- The outcome of an addition or a subtraction in the mode that the processor is in. -/
def sum (decimal binary : UInt8 → UInt8 → Bool → Sum) (o : Operands) (c : Cpu) : Sum :=
  (if c.status.decimalMode then decimal else binary) c.a (c.operandValue o.operand) c.status.carry

/-- The effect of an operation on a processor whose PC is already past the operands. -/
def perform (op : Operation) (d : Descriptor) (o : Operands) (c : Cpu) : Cpu :=
  match op with
  | add => c.accumulate (sum addDecimal addBinary o c)
  | subtract => c.accumulate (sum subtractDecimal subtractBinary o c)
  | logic f => c.setRegister .a (f.apply c.a (c.operandValue o.operand))
  | testBits =>
    let value := c.operandValue o.operand
    let c := c.testSelected value
    if d.mode = .immediate then c
    else { c with status := { c.status with
      negative := isNegative value, overflow := value &&& 0x40 != 0 } }
  | testAndAssignBits state =>
    let value := c.memory.read o.location
    (c.testSelected value).store o.location (assignBits value c.a state)
  | modify f =>
    let old := c.operandValue o.operand
    let new := f.value c.status.carry old
    let c := { c with status := { c.status with carry := f.carry c.status.carry old } }
    let c := c.writeOperand o.operand new
    { c with status := c.status.ofValue new }
  | count r up => c.setRegister r (if up then c.register r + 1 else c.register r - 1)
  | compare r => c.compareWith (c.register r) (c.operandValue o.operand)
  | load r => c.setRegister r (c.operandValue o.operand)
  | store r => c.store o.location (c.register r)
  | storeZero => c.store o.location 0
  | assignBit state =>
    c.store o.location (assignBits (c.memory.read o.location) (bitMask d.bitIndex) state)
  | branch condition => if c.holds condition then { c with pc := o.location } else c
  | branchOnBit state => if bitHolds d o c state then { c with pc := o.target } else c
  | jump => { c with pc := o.location }
  | call => { c.pushWord (c.pc - 1) with pc := o.location }
  | returnFromCall => { c with pc := c.topWord + 1, s := c.s + 2 }
  | returnFromInterrupt =>
    { c with status := .unpack c.top, pc := c.drop.topWord, s := c.drop.s + 2 }
  | push r => c.push (c.register r)
  | pushStatus => c.push c.pushedStatus
  | pull r => c.drop.setRegister r c.top
  | pullStatus => { c with status := .unpack c.top, s := c.s + 1 }
  | transfer source target => c.setRegister target (c.register source)
  | putFlag f value => { c with status := c.status.put value f }
  | halt => { c with halted := true }
  | idle | pause | dumpRegisters | dumpMemory => c

/-- The cycles of a branch beyond its base cost: one if it is taken, two if that leads to another
page. -/
def branchCycles (taken crossed : Bool) : UInt8 :=
  if taken then (if crossed then 2 else 1) else 0

/-- The cycles that an operation takes beyond the base cost of its instruction. -/
def extraCycles (op : Operation) (d : Descriptor) (o : Operands) (c : Cpu) : UInt8 :=
  let crossing : UInt8 := if o.pageCrossed then 1 else 0
  match op with
  | add | subtract => if c.status.decimalMode then crossing + 1 else crossing
  | logic _ | testBits | compare _ | load _ => crossing
  | modify f => if f.paysForPageCrossing then crossing else 0
  | branch condition => branchCycles (c.holds condition) o.pageCrossed
  | branchOnBit state => branchCycles (bitHolds d o c state) o.targetCrossed
  | _ => 0

/-- What the execution of an operation leads to. -/
def result : Operation → StepResult
  | halt => .finished
  | pause => .pause
  | _ => .proceed

/-- What an operation reports, on a processor whose PC is already past the operands. -/
def report (op : Operation) (o : Operands) (c : Cpu) : List String :=
  match op with
  | dumpRegisters => [registersText (c.operandValue o.operand) c]
  | dumpMemory => [dumpText c.memory]
  | _ => []

/-- How the execution of an operation ends that got its operands. -/
def outcome (op : Operation) (d : Descriptor) (c : Cpu) (o : Operands) :
    EStateM.Result Fault Execution StepResult :=
  .ok op.result
    ⟨op.perform d o (c.supplied d o (op.extraCycles d o c)), op.report o (c.supplied d o 0)⟩

end Operation

namespace Action

variable {α β : Type}

/-- What follows an action that succeeds goes on from there. -/
theorem bind_of_ok {x : Action α} {k : α → Action β} {e e' : Execution} {a : α}
    (h : x e = .ok a e') : (x >>= k) e = k a e' := by
  simp only [bind, EStateM.bind, h]

/-- Nothing follows an action that fails. -/
theorem bind_of_error {x : Action α} {k : α → Action β} {e e' : Execution} {fault : Fault}
    (h : x e = .error fault e') : (x >>= k) e = .error fault e' := by
  simp only [bind, EStateM.bind, h]

/-- An action that only gives a value leaves everything as it is. -/
@[simp] theorem pure_apply (a : α) (e : Execution) : (pure a : Action α) e = .ok a e := rfl

/-- To inspect the processor changes nothing. -/
@[simp] theorem inspect_bind (f : Cpu → α) (k : α → Action β) (e : Execution) :
    (inspect f >>= k) e = k (f e.cpu) e := rfl

/-- What follows an update sees the processor that was updated. -/
@[simp] theorem update_bind (f : Cpu → Cpu) (k : Unit → Action β) (c : Cpu) (r : List String) :
    (update f >>= k) ⟨c, r⟩ = k () ⟨f c, r⟩ := rfl

/-- What follows sees what was taken and the processor from which it was taken. -/
@[simp] theorem take_bind (f : Cpu → α × Cpu) (k : α → Action β) (c : Cpu) (r : List String) :
    (take f >>= k) ⟨c, r⟩ = k (f c).1 ⟨(f c).2, r⟩ := rfl

/-- An attempt succeeds or fails as what is attempted does, and leaves the report alone. -/
theorem attempt_apply (f : Cpu → Except Fault α × Cpu) (c : Cpu) (r : List String) :
    attempt f ⟨c, r⟩ = match f c with
      | (.ok a, c) => .ok a ⟨c, r⟩
      | (.error fault, c) => .error fault ⟨c, r⟩ := rfl

end Action

/-- A result with which an operation was refused. What has changed by then is PC. -/
def Refused {α : Type} (c : Cpu) (d : Descriptor) (mode : AddressingMode)
    (r : EStateM.Result Fault Execution α) : Prop :=
  ∃ pc, r = .error (.unsupportedAddressingMode mode c.pc) ⟨{ c.fetched d with pc }, []⟩

/-- An action right after the fetch has the given value on the operands that are found, and is
refused if there are none. -/
def Takes {α : Type} (x : Action α) (c : Cpu) (d : Descriptor)
    (found : Except AddressingMode Operands) (value : Operands → EStateM.Result Fault Execution α) :
    Prop :=
  match found with
  | .ok o => x ⟨c.fetched d, []⟩ = value o
  | .error mode => Refused c d mode (x ⟨c.fetched d, []⟩)

/-- A refusal is passed on, so only the case with operands is left to whatever follows. -/
theorem Takes.bind {α β : Type} {x : Action α} {k : α → Action β} {c : Cpu} {d : Descriptor}
    {found : Except AddressingMode Operands} {a : Operands → α} {e : Operands → Execution}
    {value : Operands → EStateM.Result Fault Execution β}
    (hx : Takes x c d found fun o => .ok (a o) (e o)) (hk : ∀ o, k (a o) (e o) = value o) :
    Takes (x >>= k) c d found value := by
  cases found with
  | ok o => exact (Action.bind_of_ok hx).trans (hk o)
  | error mode =>
    obtain ⟨pc, h⟩ := hx
    exact ⟨pc, Action.bind_of_error h⟩

namespace Cpu

/-- Where an operand is does not depend on the opcode that was fetched. -/
@[simp] theorem locate_fetched (c : Cpu) (d : Descriptor) (pc : UInt16) (mode : AddressingMode) :
    (c.fetched d).locate pc mode = c.locate pc mode := by
  cases mode <;> rfl

/-- An operand is the same after the opcode was fetched. -/
@[simp] theorem operandAt_fetched (c : Cpu) (d : Descriptor) (pc : UInt16) (mode : AddressingMode)
    (accepts : Operand → Bool) :
    (c.fetched d).operandAt pc mode accepts = c.operandAt pc mode accepts := by
  simp [operandAt]

/-- An operand is the same after operands were taken. -/
@[simp] theorem operandAt_supplied (c : Cpu) (d : Descriptor) (o : Operands) (n : UInt8)
    (pc : UInt16) (mode : AddressingMode) (accepts : Operand → Bool) :
    (c.supplied d o n).operandAt pc mode accepts = c.operandAt pc mode accepts := by
  cases mode <;> rfl

/-- To take operands leaves the flags alone. -/
@[simp] theorem status_supplied (c : Cpu) (d : Descriptor) (o : Operands) (n : UInt8) :
    (c.supplied d o n).status = c.status := rfl

/-- A condition holds after the opcode was fetched if it held before. -/
@[simp] theorem holds_fetched (c : Cpu) (d : Descriptor) (condition : Condition) :
    (c.fetched d).holds condition = c.holds condition := by
  cases condition <;> rfl

/-- A condition holds after operands were taken if it held before. -/
@[simp] theorem holds_supplied (c : Cpu) (d : Descriptor) (o : Operands) (n : UInt8)
    (condition : Condition) : (c.supplied d o n).holds condition = c.holds condition := by
  cases condition <;> rfl

/-- To pull a word is to take the top word and to move the stack pointer by two. -/
theorem popWord_eq (c : Cpu) : c.popWord = (c.topWord, { c with s := c.s + 2 }) := by
  simp [popWord, pop, topWord, drop, UInt8.add_assoc]

end Cpu

section Taking

open Core65C02.Action

variable (c : Cpu) (d : Descriptor)

/-- To resolve an operand is to take the operand in the mode of the instruction. -/
theorem takes_operand :
    Takes (attempt (·.resolveOperand d.mode)) c d (c.operandAt (c.pc + 1) d.mode fun _ => true)
      fun o => .ok ⟨o.operand, o.pageCrossed⟩ ⟨c.supplied d o 0, []⟩ := by
  have hpc : (c.fetched d).pc = c.pc + 1 := rfl
  unfold Takes Cpu.operandAt
  rw [attempt_apply, Cpu.resolveOperand_eq, hpc, Cpu.locate_fetched]
  cases c.locate (c.pc + 1) d.mode with
  | none => exact ⟨c.pc + 1, rfl⟩
  | some r => rfl

/-- To resolve an address is to take an operand that is an address. -/
theorem takes_address :
    Takes (attempt (·.resolveAddress d.mode)) c d (c.operandAt (c.pc + 1) d.mode Operand.isAddress)
      fun o => .ok (o.location, o.pageCrossed) ⟨c.supplied d o 0, []⟩ := by
  have hpc : (c.fetched d).pc = c.pc + 1 := rfl
  unfold Takes
  rw [attempt_apply, Cpu.resolveAddress_eq, hpc, Cpu.operandAt_fetched]
  cases c.operandAt (c.pc + 1) d.mode Operand.isAddress with
  | error mode => exact ⟨_, rfl⟩
  | ok o => rfl

/-- To resolve a value is to take an operand of any kind and to look at its value. -/
theorem takes_resolvedValue :
    Takes (attempt (·.resolveValue d.mode)) c d (c.operandAt (c.pc + 1) d.mode fun _ => true)
      fun o => .ok (c.operandValue o.operand, o.pageCrossed) ⟨c.supplied d o 0, []⟩ := by
  have hpc : (c.fetched d).pc = c.pc + 1 := rfl
  unfold Takes Cpu.operandAt
  rw [attempt_apply]
  unfold Cpu.resolveValue
  rw [Cpu.resolveOperand_eq, hpc, Cpu.locate_fetched]
  cases c.locate (c.pc + 1) d.mode with
  | none => exact ⟨c.pc + 1, rfl⟩
  | some r =>
    obtain ⟨operand, pageCrossed⟩ := r
    cases operand <;> rfl

/-- A cycle is charged if a page was crossed. -/
theorem chargeCrossing_supplied (o : Operands) (crossed : Bool) :
    chargeCrossing crossed ⟨c.supplied d o 0, []⟩ =
      .ok () ⟨c.supplied d o (if crossed then 1 else 0), []⟩ := by
  cases crossed <;> rfl

/-- To read a value is to resolve it and to pay for the page that was crossed. -/
theorem takes_value :
    Takes (readValue d.mode) c d (c.operandAt (c.pc + 1) d.mode fun _ => true)
      fun o => .ok (c.operandValue o.operand)
        ⟨c.supplied d o (if o.pageCrossed then 1 else 0), []⟩ := by
  exact (takes_resolvedValue c d).bind fun o => bind_of_ok (chargeCrossing_supplied c d o _)

/-- To resolve a place is to take an operand that is no literal, and nothing is charged for a
page. -/
theorem takes_place :
    Takes (resolvePlace d.mode) c d (c.operandAt (c.pc + 1) d.mode fun o => !o.isLiteral)
      fun o => .ok ⟨o.operand, o.pageCrossed⟩ ⟨c.supplied d o 0, []⟩ := by
  have h := takes_operand c d
  unfold Takes Cpu.operandAt at h ⊢
  unfold resolvePlace
  cases hl : c.locate (c.pc + 1) d.mode with
  | none =>
    rw [hl] at h
    obtain ⟨pc, h⟩ := h
    exact ⟨pc, bind_of_error h⟩
  | some r =>
    simp only [hl] at h
    rw [bind_of_ok h]
    obtain ⟨operand, pageCrossed⟩ := r
    cases operand with
    | immediate value => exact ⟨_, rfl⟩
    | accumulator => rfl
    | address address => rfl

/-- Adding up leaves the sum in the mode that the decimal flag says, at the cycles of an
addition. -/
theorem addUp_supplied (decimal binary : UInt8 → UInt8 → Bool → Sum) (o : Operands) :
    addUp decimal binary (c.operandValue o.operand)
        ⟨c.supplied d o (if o.pageCrossed then 1 else 0), []⟩ =
      .ok () ⟨(c.supplied d o (Operation.add.extraCycles d o c)).accumulate
        (Operation.sum decimal binary o c), []⟩ := by
  cases hd : c.status.decimalMode with
  | false => simp [addUp, Operation.extraCycles, Operation.sum, hd]; rfl
  | true =>
    cases hp : o.pageCrossed <;> simp [addUp, Operation.extraCycles, Operation.sum, hd, hp] <;> rfl

/-- A branch moves PC if it is taken, and pays for that. -/
theorem branchTo_supplied (o : Operands) (target : UInt16) (crossed taken : Bool) :
    branchTo target crossed taken ⟨c.supplied d o 0, []⟩ =
      let c := c.supplied d o (Operation.branchCycles taken crossed)
      .ok () ⟨if taken then { c with pc := target } else c, []⟩ := by
  cases taken <;> cases crossed <;> rfl

/-- A branch takes its address and then has its outcome. -/
theorem takes_branch (condition : Condition) :
    Takes ((Operation.branch condition).execute d) c d
      (c.operandAt (c.pc + 1) d.mode Operand.isAddress)
      ((Operation.branch condition).outcome d c) := by
  refine (takes_address c d).bind fun o => ?_
  have hbranch := branchTo_supplied c d o o.location o.pageCrossed (c.holds condition)
  simp only [← Cpu.holds_fetched c d] at hbranch
  refine (bind_of_ok hbranch).trans ?_
  simp [Operation.outcome, Operation.perform, Operation.extraCycles]
  exact ⟨rfl, rfl⟩

/-- The first operand is resolved, and the byte behind it read, before the second is looked at, so
this does not split at one `Takes.bind`. -/
theorem takes_branchOnBit (state : Bool) :
    Takes ((Operation.branchOnBit state).execute d) c d (c.operands (c.pc + 1) d .addressAndTarget)
      ((Operation.branchOnBit state).outcome d c) := by
  have hfirst := takes_address c d
  unfold Takes Cpu.operands at *
  cases h : c.operandAt (c.pc + 1) d.mode Operand.isAddress with
  | error mode =>
    rw [h] at hfirst
    obtain ⟨pc, hfirst⟩ := hfirst
    exact ⟨pc, bind_of_error hfirst⟩
  | ok first =>
    simp only [h] at hfirst
    have hpc : (c.supplied d first 0).pc = first.next := rfl
    have hsecond := attempt_apply (·.resolveAddress (d.secondMode.getD .relative))
      (c.supplied d first 0) []
    rw [Cpu.resolveAddress_eq, hpc, Cpu.operandAt_supplied] at hsecond
    simp only [bind, Except.bind]
    cases h' : c.operandAt first.next (d.secondMode.getD .relative) Operand.isAddress with
    | error mode =>
      rw [h'] at hsecond
      exact ⟨_, (bind_of_ok hfirst).trans ((inspect_bind ..).trans (bind_of_error hsecond))⟩
    | ok second =>
      rw [h'] at hsecond
      let o : Operands := { first with
        target := second.location, targetCrossed := second.pageCrossed, next := second.next }
      have hbranch := branchTo_supplied c d o o.target o.targetCrossed
        (Operation.bitHolds d o c state)
      exact (bind_of_ok hfirst).trans
        ((inspect_bind ..).trans ((bind_of_ok hsecond).trans (bind_of_ok hbranch)))

end Taking

/-- An operation takes the operands of its kind of access, and with them its effect; without them
it is refused. -/
theorem takes_execute (op : Operation) (c : Cpu) (d : Descriptor) :
    Takes (op.execute d) c d (c.operands (c.pc + 1) d op.access) (op.outcome d c) := by
  cases op with
  | add =>
    exact (takes_value c d).bind fun o => Action.bind_of_ok (addUp_supplied ..)
  | subtract =>
    exact (takes_value c d).bind fun o => Action.bind_of_ok (addUp_supplied ..)
  | logic f => exact (takes_value c d).bind fun o => rfl
  | testBits =>
    refine (takes_value c d).bind fun o => ?_
    by_cases hm : d.mode = .immediate <;>
      simp only [Operation.outcome, Operation.perform, hm, ne_eq, not_true_eq_false,
        not_false_eq_true, if_true, if_false] <;> rfl
  | testAndAssignBits state => exact (takes_address c d).bind fun o => rfl
  | modify f =>
    refine (takes_place c d).bind fun o => ?_
    have hextra : (Operation.modify f).extraCycles d o c =
        if f.paysForPageCrossing && o.pageCrossed then 1 else 0 := by
      cases hf : f.paysForPageCrossing <;> simp [Operation.extraCycles, hf]
    unfold Operation.outcome
    rw [hextra]
    exact Action.bind_of_ok (chargeCrossing_supplied c d o _)
  | count r up => rfl
  | compare r => exact (takes_value c d).bind fun o => rfl
  | load r => exact (takes_value c d).bind fun o => rfl
  | store r => exact (takes_address c d).bind fun o => rfl
  | storeZero => exact (takes_address c d).bind fun o => rfl
  | assignBit state => exact (takes_address c d).bind fun o => rfl
  | branch condition => exact takes_branch c d condition
  | branchOnBit state => exact takes_branchOnBit c d state
  | jump => exact (takes_address c d).bind fun o => rfl
  | call => exact (takes_address c d).bind fun o => rfl
  | returnFromCall =>
    change (Action.take (·.popWord) >>= _) _ = _
    rw [Action.take_bind, Cpu.popWord_eq]
    rfl
  | returnFromInterrupt =>
    change (Action.take (·.pop) >>= _) _ = _
    rw [Action.take_bind, Action.update_bind, Action.take_bind, Cpu.popWord_eq]
    rfl
  | push r => rfl
  | pushStatus => rfl
  | pull r => rfl
  | pullStatus => rfl
  | transfer source target => rfl
  | putFlag f value => rfl
  | idle => rfl
  | halt => rfl
  | pause => rfl
  | dumpRegisters => exact (takes_resolvedValue c d).bind fun o => rfl
  | dumpMemory => rfl

end Core65C02
