import Core65C02.Proofs.Access
import Core65C02.Proofs.Snapshot

/-!
# What a step leaves alone

Every instruction has a frame: the addresses at which it may change memory, what it makes of the
stack pointer, and the flags that it may change. The frame is stated here by mnemonic, and the main
statement is that a step of the standard dispatch stays within the frame of the instruction that it
executes, whatever the effective address is: it may be on the stack or in the program.
-/

namespace Core65C02

/-- Whether an instruction may change a flag. For Zero and Negative nothing is said. -/
def Descriptor.mayChange (d : Descriptor) : Flag → Bool
  | .decimalMode => d.mnemonic ∈ [.cld, .sed, .plp, .rti]
  | .interruptDisable => d.mnemonic ∈ [.cli, .sei, .plp, .rti]
  | .breakCommand => d.mnemonic ∈ [.plp, .rti]
  | .overflow =>
    d.mnemonic ∈ [.adc, .sbc, .clv, .plp, .rti] || (d.mnemonic = .bit && d.mode ≠ .immediate)
  | .carry =>
    d.mnemonic ∈ [.adc, .sbc, .cmp, .cpx, .cpy, .asl, .lsr, .rol, .ror, .clc, .sec, .plp, .rti]
  | .zero | .negative => true

namespace Operation

/-- Whether an operation touches a flag, in an addressing mode. -/
def touches (mode : AddressingMode) : Operation → Flag → Bool
  | add, f | subtract, f => f ∈ [.carry, .zero, .overflow, .negative]
  | compare _, f => f ∈ [.carry, .zero, .negative]
  | logic _, f => f ∈ [.zero, .negative]
  | modify g, f => f ∈ [.zero, .negative] || (f = .carry && g ∉ [.increment, .decrement])
  | testBits, f => f = .zero || (f ∈ [.negative, .overflow] && mode ≠ .immediate)
  | testAndAssignBits _, f => f = .zero
  | count r _, f | load r, f | pull r, f | transfer _ r, f => f ∈ [.zero, .negative] && r ≠ .s
  | putFlag g _, f => f = g
  | returnFromInterrupt, _ | pullStatus, _ => true
  | _, _ => false

end Operation

namespace StatusFlags

/-- Only Zero and Negative are derived from a value. -/
theorem test_ofValue {f : Flag} (s : StatusFlags) (value : UInt8) (hf : f ∉ [.zero, .negative]) :
    (s.ofValue value).test f = s.test f := by
  cases f with
  | zero | negative => exact absurd (by decide) hf
  | _ => rfl

/-- To put one flag leaves the others alone. -/
theorem test_put {f g : Flag} (s : StatusFlags) (value : Bool) (hf : f ≠ g) :
    (s.put value g).test f = s.test f := by
  cases g <;> cases f <;> first | exact absurd rfl hf | rfl

end StatusFlags

/-- Outside of the rule an operation touches no flag. -/
theorem Descriptor.touches_eq_false {d : Descriptor} {f : Flag} (hf : d.mayChange f = false) :
    d.mnemonic.operation.touches d.mode f = false := by
  obtain ⟨_, m, mode⟩ := d
  cases f with
  | zero | negative => cases hf
  | overflow =>
    by_cases hbit : m = .bit
    · subst hbit
      have hmode : mode = .immediate := by simpa [mayChange] using hf
      rw [hmode]
      rfl
    · cases m <;> first | rfl | exact absurd rfl hbit | cases hf
  | _ => cases m <;> first | rfl | cases hf

namespace Cpu

/-- Only Zero and Negative can change when a register is set, and neither does with the stack
pointer. -/
theorem test_setRegister {f : Flag} {r : Register} (c : Cpu) (value : UInt8)
    (hf : f ∈ [.zero, .negative] → r = .s) :
    (c.setRegister r value).status.test f = c.status.test f := by
  cases r with
  | s => rfl
  | _ => exact StatusFlags.test_ofValue c.status value fun h => nomatch hf h

/-- Only Zero and Negative can change when a result is put back where its operand was. -/
theorem test_writeOperand {f : Flag} (c : Cpu) (operand : Operand) (value : UInt8)
    (hf : f ∉ [.zero, .negative]) :
    (c.writeOperand operand value).status.test f = c.status.test f := by
  cases operand with
  | accumulator => exact test_setRegister c value fun h => absurd h hf
  | _ => rfl

/-- The addresses at which the instruction at PC may change memory. -/
def writtenBy (c : Cpu) (d : Descriptor) : List UInt16 :=
  match d.mnemonic with
  | .sta | .stx | .sty | .stz | .trb | .tsb | .rmb _ | .smb _ => (c.effectiveAddress? d).toList
  | .asl | .lsr | .rol | .ror | .inc | .dec => (c.effectiveAddress? d).toList
  | .pha | .phx | .phy | .php => [stackAddress c.s]
  | .jsr => [stackAddress c.s, stackAddress (c.s - 1)]
  | _ => []

/-- What an instruction makes of the stack pointer. -/
def stackPointerAfter (c : Cpu) : Mnemonic → UInt8
  | .pha | .phx | .phy | .php => c.s - 1
  | .pla | .plx | .ply | .plp => c.s + 1
  | .jsr => c.s - 2
  | .rts => c.s + 2
  | .rti => c.s + 3
  | .txs => c.x
  | _ => c.s

/-- The addresses at which the next step may change memory. -/
def writeSet (c : Cpu) : List UInt16 := c.executing?.elim [] c.writtenBy

/-- The stack pointer after the next step. -/
def nextStackPointer (c : Cpu) : UInt8 :=
  c.executing?.elim c.s fun d => c.stackPointerAfter d.mnemonic

/-- Whether the next step may change a flag. -/
def mayChange (c : Cpu) (f : Flag) : Bool := c.executing?.any (·.mayChange f)

/-- The rule for memory by operation. -/
theorem writtenBy_eq (c : Cpu) (d : Descriptor) :
    c.writtenBy d = match d.mnemonic.operation with
      | .store _ | .storeZero | .testAndAssignBits _ | .assignBit _ | .modify _ =>
        (c.effectiveAddress? d).toList
      | .push _ | .pushStatus => [stackAddress c.s]
      | .call => [stackAddress c.s, stackAddress (c.s - 1)]
      | _ => [] := by
  unfold writtenBy
  cases d.mnemonic <;> rfl

/-- An operation writes where the rule says, and only there. -/
theorem addresses_writes {c : Cpu} {d : Descriptor} {o : Operands}
    (ho : c.operands (c.pc + 1) d d.mnemonic.operation.access = .ok o) (extra : UInt8) :
    (d.mnemonic.operation.writes d o (c.supplied d o extra)).map Prod.fst = c.writtenBy d := by
  rw [writtenBy_eq]
  cases hop : d.mnemonic.operation with
  | store _ | storeZero | testAndAssignBits _ | assignBit _ =>
    rw [hop] at ho
    exact (location_of_operands ho (by simp [Operation.access])).symm
  | modify f =>
    rw [hop] at ho
    have haccess : (Operation.modify f).access ≠ .nothing := by simp [Operation.access]
    rw [← address?_of_operands ho haccess, Operation.writes, List.map_map]
    exact List.map_id _
  | _ => rfl

/-- Memory keeps what it holds at all addresses but those of the rule. -/
theorem executed_memory_frame {c : Cpu} {d : Descriptor} {o : Operands}
    (ho : c.operands (c.pc + 1) d d.mnemonic.operation.access = .ok o) {address : UInt16}
    (haddress : address ∉ c.writtenBy d) :
    (c.executed d d.mnemonic.operation o).memory.read address = c.memory.read address := by
  rw [executed_eq]
  generalize d.mnemonic.operation.extraCycles d o c = extra
  have hwrites := addresses_writes ho extra
  have hother : ∀ e ∈ d.mnemonic.operation.writes d o (c.supplied d o extra), e.1 ≠ address := by
    rintro e he rfl
    rw [← hwrites] at haddress
    exact haddress (List.mem_map_of_mem he)
  change (d.mnemonic.operation.perform d o (c.supplied d o extra)).memory.read address = _
  rw [memory_perform]
  exact Memory.read_overlay_of_forall_ne _ hother

/-- The stack pointer becomes what the rule says. -/
theorem s_perform (m : Mnemonic) (d : Descriptor) (o : Operands) (c : Cpu) :
    (m.operation.perform d o c).s = c.stackPointerAfter m := by
  cases m with
  | asl | lsr | rol | ror | inc | dec =>
    obtain ⟨operand⟩ := o
    cases operand <;> rfl
  | bit =>
    by_cases hmode : d.mode = .immediate <;>
      simp [Mnemonic.operation, Operation.perform, hmode] <;> rfl
  | bcc | bcs | beq | bmi | bne | bpl | bra | bvc | bvs =>
    simp only [Mnemonic.operation, Operation.perform]
    split <;> rfl
  | bbr bit | bbs bit =>
    simp only [Mnemonic.operation, Operation.perform]
    split <;> rfl
  | jsr => exact sub_one_sub_one c.s
  | rti =>
    change c.s + 1 + 2 = c.s + 3
    rw [UInt8.add_assoc]
    rfl
  | _ => rfl

/-- An operation changes no flag but those that it touches. -/
theorem test_perform {op : Operation} {d : Descriptor} {o : Operands} {c : Cpu} {f : Flag}
    (hf : op.touches d.mode f = false) :
    (op.perform d o c).status.test f = c.status.test f := by
  cases op with
  | add | subtract =>
    cases f with
    | carry | zero | overflow | negative => cases hf
    | _ => rfl
  | compare r =>
    cases f with
    | carry | zero | negative => cases hf
    | _ => rfl
  | logic g =>
    have hf : f ∉ [.zero, .negative] := by simpa [Operation.touches] using hf
    exact test_setRegister c _ fun h => absurd h hf
  | testBits =>
    have hf : f ≠ .zero ∧ (f ∈ [.negative, .overflow] → d.mode = .immediate) := by
      simpa [Operation.touches] using hf
    simp only [Operation.perform]
    by_cases hmode : d.mode = .immediate
    · rw [if_pos hmode]
      exact StatusFlags.test_put c.status _ hf.1
    · rw [if_neg hmode]
      cases f with
      | zero => exact absurd rfl hf.1
      | negative | overflow => exact absurd (hf.2 (by decide)) hmode
      | _ => rfl
  | testAndAssignBits state =>
    have hf : f ≠ .zero := by simpa [Operation.touches] using hf
    exact StatusFlags.test_put c.status _ hf
  | modify g =>
    have hf : f ∉ [.zero, .negative] ∧ (f = .carry → g ≠ .increment → g = .decrement) := by
      simpa [Operation.touches] using hf
    simp only [Operation.perform]
    rw [StatusFlags.test_ofValue _ _ hf.1, test_writeOperand _ _ _ hf.1]
    by_cases hcarry : f = .carry
    · subst hcarry
      cases g with
      | increment | decrement => rfl
      | _ => exact absurd (hf.2 rfl (by decide)) (by decide)
    · exact StatusFlags.test_put c.status _ hcarry
  | count r up | load r | pull r | transfer _ r =>
    have hf : f ∈ [.zero, .negative] → r = .s := by simpa [Operation.touches] using hf
    exact test_setRegister _ _ hf
  | branch condition =>
    simp only [Operation.perform]
    cases c.holds condition <;> rfl
  | branchOnBit state =>
    simp only [Operation.perform]
    cases Operation.bitHolds d o c state <;> rfl
  | putFlag g value =>
    have hf : f ≠ g := by simpa [Operation.touches] using hf
    exact StatusFlags.test_put c.status value hf
  | returnFromInterrupt | pullStatus => cases hf
  | _ => rfl

/-- A step stays within the frame of the instruction that it executes. Memory keeps what it holds at
every address but those that the instruction writes to; the stack pointer moves with pushes, pulls,
calls and returns and is taken from X where it is transferred; and flags change in those
instructions only that may change them. A step that fails or finds the program ended executes no
instruction, and its frame is everything. -/
theorem step_frame (c : Cpu) (hdispatch : c.dispatch = .standard) :
    (∀ address, address ∉ c.writeSet →
      c.step.cpu.memory.read address = c.memory.read address) ∧
    c.step.cpu.s = c.nextStackPointer ∧
    ∀ f, c.mayChange f = false → c.step.cpu.status.test f = c.status.test f := by
  have hstep := standardStepsTo_step hdispatch
  unfold writeSet nextStackPointer mayChange
  generalize c.step = out at hstep ⊢
  cases hstep with
  | halted hhalted =>
    rw [executing?_of_halted hhalted]
    exact ⟨fun _ _ => rfl, rfl, fun _ _ => rfl⟩
  | undefined hhalted hd =>
    rw [executing?_of_not_halted hhalted, hd]
    exact ⟨fun _ _ => rfl, rfl, fun _ _ => rfl⟩
  | executed hhalted d hd o ho hnext =>
    rw [executing?_of_not_halted hhalted, hd]
    refine ⟨fun _ haddress => executed_memory_frame ho haddress, ?_, fun f hf => ?_⟩
    · rw [executed_eq]
      exact s_perform d.mnemonic d o _
    · rw [executed_eq]
      exact test_perform (Descriptor.touches_eq_false hf)

/-- A processor about to increment a byte of its own stack. -/
def incrementing : Cpu where
  x := 0x01
  pc := 0xFFFE
  memory := ((Memory.zero.write 0xFFFE 0xFE).write 0xFFFF 0xFE).write 0x0000 0x01

/-- Only this byte of memory changes, while the stack pointer and Carry stay. -/
theorem step_frame_incrementing :
    incrementing.dispatch = .standard ∧
      (∀ address, address ≠ 0x01FF →
        incrementing.step.cpu.memory.read address = incrementing.memory.read address) ∧
      incrementing.step.cpu.s = 0xFF ∧ incrementing.step.cpu.status.test .carry = false := by
  have hopcode : incrementing.opcode = 0xFE := by simp [opcode, incrementing, Memory.read_write]
  have hd : incrementing.executing? = some (.single 0xFE .inc .absoluteX 7) := by
    rw [executing?_of_not_halted rfl, descriptor?_eq_find?, hopcode]
    decide +kernel
  have hset : incrementing.writeSet = [0x01FF] := by
    rw [writeSet, hd]
    simp [writtenBy, Descriptor.single, effectiveAddress?, locate, indexed, incrementing,
      Operand.address?, Memory.readWord, Memory.read_write]
    rfl
  obtain ⟨hmemory, hs, hflags⟩ := step_frame incrementing rfl
  refine ⟨rfl, fun address haddress => hmemory address ?_, ?_, hflags .carry ?_⟩
  · simpa [hset] using haddress
  · rw [hs, nextStackPointer, hd]
    rfl
  · rw [mayChange, hd]
    rfl

end Cpu

end Core65C02
