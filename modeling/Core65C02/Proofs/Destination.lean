import Core65C02.Proofs.Frame

/-!
# Where results go

Most instructions have a result, and it goes into A, X or Y or back to the byte of memory that it
was made of. Zero and Negative go with it: after an instruction that writes a register they tell of
what is in the register, and after one that modifies a byte they tell of what is at its address,
also if the value is the one that was there before. The exceptions are stated as well: transfers to
the stack pointer leave both flags alone, and tests of bits judge a byte that goes nowhere.
-/

namespace Core65C02

/-- Zero and Negative tell of a byte what they are named for. -/
structure StatusFlags.Reflects (s : StatusFlags) (value : UInt8) : Prop where
  /-- Zero tells that the byte is zero. -/
  zero : s.zero = decide (value = 0)
  /-- Negative is bit 7 of the byte. -/
  negative : s.negative = value.toNat.testBit 7

/-- The function of one byte by which an instruction replaces its operand. -/
def Mnemonic.modification? : Mnemonic → Option Modification
  | .asl => some .shiftLeft
  | .lsr => some .shiftRight
  | .rol => some .rotateLeft
  | .ror => some .rotateRight
  | .inc => some .increment
  | .dec => some .decrement
  | _ => none

namespace Descriptor

/-- The register of A, X and Y that an instruction writes. -/
def destination? (d : Descriptor) : Option Register :=
  match d.mnemonic with
  | .adc | .sbc | .and | .ora | .eor | .lda | .pla | .txa | .tya => some .a
  | .asl | .lsr | .rol | .ror | .inc | .dec => if d.mode = .accumulator then some .a else none
  | .ldx | .plx | .tax | .tsx | .inx | .dex => some .x
  | .ldy | .ply | .tay | .iny | .dey => some .y
  | _ => none

/-- Whether an instruction may change Zero or Negative: it writes a register or modifies a byte, it
compares, tests bits or pulls the status. Tests of bits with a literal, and those that change the
bits, leave Negative alone. -/
def mayJudge (d : Descriptor) (f : Flag) : Bool :=
  d.mnemonic.modification?.isSome || d.destination?.isSome ||
    d.mnemonic ∈ [.cmp, .cpx, .cpy, .plp, .rti] ||
    (d.mnemonic = .bit && (f = .zero || d.mode ≠ .immediate)) ||
    (d.mnemonic ∈ [.trb, .tsb] && f = .zero)

end Descriptor

namespace Cpu

/-- The register of A, X and Y that the next step writes. -/
def destination? (c : Cpu) : Option Register := c.executing?.bind (·.destination?)

/-- The address of the byte of memory that the next step modifies, and by which function. -/
def modified? (c : Cpu) : Option (Modification × UInt16) :=
  c.executing?.bind fun d => d.mnemonic.modification?.bind fun f =>
    (c.effectiveAddress? d).map fun address => (f, address)

/-- Whether the next step may change Zero or Negative. -/
def mayJudge (c : Cpu) (f : Flag) : Bool := c.executing?.any (·.mayJudge f)

end Cpu

/-- A byte is negative if its bit 7 is set. -/
theorem isNegative_eq_testBit : ∀ b : UInt8, isNegative b = b.toNat.testBit 7 := by
  decide +kernel

/-- Flags that are derived from a value reflect it. -/
theorem StatusFlags.reflects_ofValue (s : StatusFlags) (value : UInt8) :
    (s.ofValue value).Reflects value :=
  ⟨Bool.beq_eq_decide_eq value 0, isNegative_eq_testBit value⟩

/-- A mnemonic that stands for a modification has the operation that makes it. -/
theorem Mnemonic.operation_of_modification? {m : Mnemonic} {f : Modification}
    (hm : m.modification? = some f) : m.operation = .modify f := by
  cases m <;> cases hm <;> rfl

namespace Operation

/-- The register of A, X and Y that an operation writes when it works on an operand. -/
def destination? (op : Operation) (operand : Operand) : Option Register :=
  match op with
  | add | subtract | logic _ => some .a
  | modify _ => if operand = .accumulator then some .a else none
  | count r _ | load r | pull r | transfer _ r => if r = .s then none else some r
  | _ => none

end Operation

namespace Cpu

/-- What writes another register leaves A, X and Y alone. -/
theorem register_setRegister_of_ne (c : Cpu) {r r' : Register} (value : UInt8) (h : r' ≠ r) :
    (c.setRegister r value).register r' = c.register r' := by
  cases r <;> cases r' <;> first | exact absurd rfl h | rfl

/-- The flags reflect what was put into A, X or Y. -/
theorem reflects_setRegister (c : Cpu) {r : Register} (value : UInt8) (h : r ≠ .s) :
    (c.setRegister r value).status.Reflects ((c.setRegister r value).register r) := by
  cases r with
  | s => exact absurd rfl h
  | _ => exact StatusFlags.reflects_ofValue c.status value

/-- An operation changes no register of A, X and Y but its destination. -/
theorem register_perform {op : Operation} {d : Descriptor} {o : Operands} {r : Register}
    (c : Cpu) (hr : r ≠ .s) (hdestination : op.destination? o.operand ≠ some r) :
    (op.perform d o c).register r = c.register r := by
  have hother {r' : Register} (h : (if r' = .s then none else some r') ≠ some r) : r ≠ r' := by
    rintro rfl
    exact h (if_neg hr)
  cases op with
  | add | subtract | logic f =>
    have ha : r ≠ .a := fun h => hdestination (by rw [h]; rfl)
    exact register_setRegister_of_ne _ _ ha
  | modify f =>
    simp only [Operation.perform]
    cases hoperand : o.operand with
    | accumulator =>
      have ha : r ≠ .a := fun h => hdestination (by rw [hoperand, h]; rfl)
      exact register_setRegister_of_ne _ _ ha
    | immediate value => cases r <;> rfl
    | address address => cases r <;> rfl
  | count r' up | load r' | transfer source r' =>
    exact register_setRegister_of_ne _ _ (hother hdestination)
  | pull r' =>
    have hdrop : c.drop.register r = c.register r := by
      cases r with
      | s => exact absurd rfl hr
      | _ => rfl
    exact (register_setRegister_of_ne _ _ (hother hdestination)).trans hdrop
  | testBits =>
    simp only [Operation.perform]
    split <;> cases r <;> rfl
  | branch condition =>
    simp only [Operation.perform]
    split <;> rfl
  | branchOnBit state =>
    simp only [Operation.perform]
    split <;> rfl
  | _ =>
    cases r with
    | s => exact absurd rfl hr
    | _ => rfl

/-- After an operation with a destination, Zero and Negative tell of what is in it. -/
theorem reflects_perform {op : Operation} {d : Descriptor} {o : Operands} {r : Register}
    (c : Cpu) (hdestination : op.destination? o.operand = some r) :
    (op.perform d o c).status.Reflects ((op.perform d o c).register r) := by
  cases op with
  | add | subtract | logic f =>
    cases hdestination
    exact reflects_setRegister _ _ nofun
  | modify f =>
    unfold Operation.perform
    cases hoperand : o.operand with
    | accumulator =>
      rw [hoperand] at hdestination
      cases hdestination
      exact StatusFlags.reflects_ofValue _ _
    | immediate value | address address =>
      rw [hoperand] at hdestination
      cases hdestination
  | count r' up | load r' | pull r' | transfer source r' =>
    simp only [Operation.destination?, Option.ite_none_left_eq_some, Option.some.injEq]
      at hdestination
    obtain ⟨hs, rfl⟩ := hdestination
    exact reflects_setRegister _ _ hs
  | _ => cases hdestination

/-- The accumulator is the operand in its own mode only. -/
theorem operand_eq_accumulator_iff {c : Cpu} {d : Descriptor} {o : Operands}
    (ho : c.operands (c.pc + 1) d .place = .ok o) :
    o.operand = .accumulator ↔ d.mode = .accumulator := by
  obtain ⟨r, hr, hoperand, _⟩ := locate_of_operands ho nofun
  rw [hoperand]
  cases hmode : d.mode <;> rw [hmode] at hr <;> cases hr <;> simp [indexed]

/-- The rule for registers by operation. -/
theorem destination?_eq {c : Cpu} {d : Descriptor} {o : Operands}
    (ho : c.operands (c.pc + 1) d d.mnemonic.operation.access = .ok o) :
    d.destination? = d.mnemonic.operation.destination? o.operand := by
  unfold Descriptor.destination?
  cases hm : d.mnemonic with
  | asl | lsr | rol | ror | inc | dec =>
    rw [hm] at ho
    simp only [Mnemonic.operation, Operation.destination?, operand_eq_accumulator_iff ho]
  | _ => rfl

/-- An instruction that does not judge a byte touches neither Zero nor Negative. -/
theorem touches_of_mayJudge {d : Descriptor} {f : Flag} (hf : f ∈ [.zero, .negative])
    (hjudge : d.mayJudge f = false) : d.mnemonic.operation.touches d.mode f = false := by
  obtain ⟨_, m, mode⟩ := d
  simp only [List.mem_cons, List.not_mem_nil, or_false] at hf
  rcases hf with rfl | rfl
  · cases m <;> first | rfl | cases hjudge
  · by_cases hbit : m = .bit
    · subst hbit
      have hmode : mode = .immediate := by
        simpa [Descriptor.mayJudge, Descriptor.destination?, Mnemonic.modification?] using hjudge
      rw [hmode]
      rfl
    · cases m <;> first | rfl | exact absurd rfl hbit | cases hjudge

/-- What modifies a byte of memory is an instruction that is executed, and the byte is where its
mode says. -/
theorem modified?_eq_some {c : Cpu} {f : Modification} {address : UInt16}
    (hmodified : c.modified? = some (f, address)) :
    ∃ d, c.executing? = some d ∧ d.mnemonic.operation = .modify f ∧
      c.effectiveAddress? d = some address := by
  obtain ⟨d, hexecuting, hrest⟩ := Option.bind_eq_some_iff.mp hmodified
  obtain ⟨g, hg, hrest⟩ := Option.bind_eq_some_iff.mp hrest
  obtain ⟨a, ha, hpair⟩ := Option.map_eq_some_iff.mp hrest
  cases hpair
  exact ⟨d, hexecuting, Mnemonic.operation_of_modification? hg, ha⟩

/-- The step of an instruction that modifies a byte of memory, in full. -/
theorem step_modify {c : Cpu} {f : Modification} {address : UInt16}
    (hdispatch : c.dispatch = .standard) (hmodified : c.modified? = some (f, address)) :
    ∃ pc last totalCycles,
      let old := c.memory.read address
      let new := f.value c.status.carry old
      c.step = ⟨{ c with
        memory := c.memory.write address new
        status := { c.status with carry := f.carry c.status.carry old }.ofValue new
        pc := pc, last := last, totalCycles := totalCycles }, .ok .proceed, []⟩ := by
  obtain ⟨d, hexecuting, hop, haddress⟩ := modified?_eq_some hmodified
  obtain ⟨hhalted, hd⟩ := executing?_eq_some_iff.mp hexecuting
  obtain ⟨o, ho, -, hstep⟩ := step_standard hdispatch hhalted hd
  rw [hop] at ho hstep
  have hoperand : o.operand = .address address := by
    have h := address?_of_operands ho nofun
    rw [haddress] at h
    cases hcase : o.operand with
    | address a =>
      rw [hcase] at h
      cases h
      rfl
    | accumulator | immediate value =>
      rw [hcase] at h
      cases h
  rw [executed_eq] at hstep
  simp only [Operation.perform, hoperand] at hstep
  exact ⟨_, _, _, hstep⟩

/-- After an instruction that modifies a byte of memory, Zero and Negative tell of the byte that was
written, which is the byte at its address. -/
theorem reflects_modified {c : Cpu} {f : Modification} {address : UInt16}
    (hdispatch : c.dispatch = .standard) (hmodified : c.modified? = some (f, address)) :
    c.step.cpu.memory.read address = f.value c.status.carry (c.memory.read address) ∧
      c.step.cpu.status.Reflects (c.step.cpu.memory.read address) := by
  obtain ⟨pc, last, totalCycles, hstep⟩ := step_modify hdispatch hmodified
  have hread : c.step.cpu.memory.read address = f.value c.status.carry (c.memory.read address) := by
    rw [hstep]
    exact Memory.read_write_self _ _ _
  refine ⟨hread, ?_⟩
  rw [hread, hstep]
  exact StatusFlags.reflects_ofValue _ _

/-- Zero and Negative go with results. At most one of A, X and Y changes in a step: the one that the
instruction writes. If it writes one, the two flags tell of what is in it then, and if it modifies a
byte of memory, of what is at its address then. Apart from these, the two flags change only in
instructions that compare, test bits or pull the status, and Negative in fewer of them than Zero. A
step that fails or finds the program ended executes no instruction and changes none of this. -/
theorem step_couples (c : Cpu) (hdispatch : c.dispatch = .standard) :
    (∀ r ∈ [.a, .x, .y], c.step.cpu.register r ≠ c.register r → c.destination? = some r) ∧
    (∀ r, c.destination? = some r → c.step.cpu.status.Reflects (c.step.cpu.register r)) ∧
    (∀ f address, c.modified? = some (f, address) →
      c.step.cpu.memory.read address = f.value c.status.carry (c.memory.read address) ∧
      c.step.cpu.status.Reflects (c.step.cpu.memory.read address)) ∧
    ∀ f ∈ [.zero, .negative], c.mayJudge f = false →
      c.step.cpu.status.test f = c.status.test f := by
  have hmodifies := fun f address => @reflects_modified c f address hdispatch
  have hstep := standardStepsTo_step hdispatch
  unfold destination? mayJudge
  generalize c.step = out at hstep hmodifies ⊢
  cases hstep with
  | halted hhalted =>
    rw [executing?_of_halted hhalted]
    exact ⟨fun _ _ h => absurd rfl h, nofun, hmodifies, fun _ _ _ => rfl⟩
  | undefined hhalted hd =>
    rw [executing?_of_not_halted hhalted, hd]
    exact ⟨fun _ _ h => absurd rfl h, nofun, hmodifies, fun _ _ _ => rfl⟩
  | executed hhalted d hd o ho hnext =>
    rw [executing?_of_not_halted hhalted, hd, Option.bind_some, destination?_eq ho]
    rw [executed_eq] at hmodifies ⊢
    refine ⟨fun r hr hchanged => ?_, fun r hdestination => ?_, hmodifies, fun f hf hjudge => ?_⟩
    · have hs : r ≠ .s := by
        rintro rfl
        simp at hr
      exact Decidable.byContradiction fun hother => hchanged (register_perform _ hs hother)
    · exact reflects_perform _ hdestination
    · exact test_perform (touches_of_mayJudge hf hjudge)

/-- A processor about to shift the operand byte of the shift itself, in which the lowest bit is the
only one. -/
def selfShifting : Cpu where
  status := { negative := true }
  memory := (Memory.zero.write 0x0000 0x56).write 0x0001 0x01

/-- The shift changes its own operand, and the flags tell what came out, not what the registers
hold. -/
theorem step_couples_selfShifting :
    selfShifting.dispatch = .standard ∧ selfShifting.modified? = some (.shiftRight, 0x0001) ∧
      (∀ r ∈ [.a, .x, .y], selfShifting.step.cpu.register r = selfShifting.register r) ∧
      selfShifting.step.cpu.memory.read 0x0001 = 0x00 ∧
      selfShifting.step.cpu.status.zero = true ∧
      selfShifting.step.cpu.status.negative = false := by
  have hopcode : selfShifting.opcode = 0x56 := by simp [opcode, selfShifting, Memory.read_write]
  have hd : selfShifting.executing? = some (.single 0x56 .lsr .zeroPageX 6) := by
    rw [executing?_of_not_halted rfl, descriptor?_eq_find?, hopcode]
    decide +kernel
  have hbyte : selfShifting.memory.read 0x0001 = 0x01 := by
    simp [selfShifting, Memory.read_write]
  have hmodified : selfShifting.modified? = some (.shiftRight, 0x0001) := by
    rw [modified?, hd]
    simp [Descriptor.single, Mnemonic.modification?, effectiveAddress?, locate, hbyte,
      Operand.address?, show selfShifting.pc = 0 from rfl, show selfShifting.x = 0 from rfl]
  have hdestination : selfShifting.destination? = none := by
    rw [destination?, hd]
    rfl
  obtain ⟨hregisters, -, hmemory, -⟩ := step_couples selfShifting rfl
  obtain ⟨hread, hflags⟩ := hmemory _ _ hmodified
  have hzero : selfShifting.step.cpu.memory.read 0x0001 = 0x00 := by
    rw [hread, hbyte]
    rfl
  rw [hzero] at hflags
  refine ⟨rfl, hmodified, fun r hr => ?_, hzero, hflags.zero, hflags.negative⟩
  refine Decidable.byContradiction fun hchanged => ?_
  have hwritten := hregisters r hr hchanged
  rw [hdestination] at hwritten
  cases hwritten

end Cpu

end Core65C02
