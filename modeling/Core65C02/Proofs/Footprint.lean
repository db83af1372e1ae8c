import Core65C02.Proofs.Frame
import Mathlib.Data.List.Iterate

/-!
# What a step depends on

A step reads few of the bytes in memory: those of the instruction, those of the pointer that its
addressing mode follows, the one that it works on, and those that it pulls from the stack. They are
listed here by mode and mnemonic. The main statement is about two processors that agree on these
bytes, whatever the rest of their memories holds: a step leads both to the same registers, flags and
counters, and makes the same writes. Only a memory dump shows the difference, in what it reports.
-/

namespace Core65C02

namespace Memory

variable {m m' : Memory}

/-- Images that agree on both bytes of a word have the same word there. -/
theorem readWord_of_agree {address : UInt16}
    (hagree : ∀ a ∈ [address, address + 1], m'.read a = m.read a) :
    m'.readWord address = m.readWord address := by
  have hlow := hagree address (by simp)
  have hhigh := hagree (address + 1) (by simp)
  rw [readWord, readWord, hlow, hhigh]

/-- Images that agree on both bytes of a pointer in page zero have the same pointer there. -/
theorem readZeroPageWord_of_agree {location : UInt8}
    (hagree : ∀ a ∈ [location.toUInt16, (location + 1).toUInt16], m'.read a = m.read a) :
    m'.readZeroPageWord location = m.readZeroPageWord location := by
  have hlow := hagree location.toUInt16 (by simp)
  have hhigh := hagree (location + 1).toUInt16 (by simp)
  rw [readZeroPageWord, readZeroPageWord, hlow, hhigh]

/-- Where images agree they still agree after the same writes. -/
theorem read_overlay_of_agree {address : UInt16} (hagree : m'.read address = m.read address)
    (entries : List (UInt16 × UInt8)) :
    (m'.overlay entries).read address = (m.overlay entries).read address := by
  induction entries generalizing m m' with
  | nil => exact hagree
  | cons e entries ih =>
    refine ih ?_
    rw [read_write, read_write, hagree]

end Memory

namespace Cpu

/-- As many addresses as are asked for, from `start` on and around the end of the space. -/
def addressesFrom (start : UInt16) (count : UInt8) : List UInt16 :=
  List.iterate (· + 1) start count.toNat

/-- The addresses of the bytes of the pointer that an addressing mode follows, where the operand
bytes are at `pc`. -/
def pointerBytes (c : Cpu) (pc : UInt16) (mode : AddressingMode) : List UInt16 :=
  let word := c.memory.readWord pc
  let location := c.memory.read pc
  match mode with
  | .absoluteIndirect => [word, word + 1]
  | .absoluteIndirectX => [word + c.x.toUInt16, word + c.x.toUInt16 + 1]
  | .zeroPageIndirect | .zeroPageIndirectY => [location.toUInt16, (location + 1).toUInt16]
  | .zeroPageIndirectX => [(location + c.x).toUInt16, (location + c.x + 1).toUInt16]
  | _ => []

/-- The addresses of the bytes that an instruction works on or pulls from the stack. What is only
written, or only gone to, is not read. -/
def readBy (c : Cpu) (d : Descriptor) : List UInt16 :=
  match d.mnemonic with
  | .adc | .sbc | .and | .ora | .eor | .bit | .cmp | .cpx | .cpy | .lda | .ldx | .ldy =>
    (c.effectiveAddress? d).toList
  | .asl | .lsr | .rol | .ror | .inc | .dec => (c.effectiveAddress? d).toList
  | .trb | .tsb | .rmb _ | .smb _ | .bbr _ | .bbs _ => (c.effectiveAddress? d).toList
  | .pla | .plx | .ply | .plp => [stackAddress (c.s + 1)]
  | .rts => [stackAddress (c.s + 1), stackAddress (c.s + 2)]
  | .rti => [stackAddress (c.s + 1), stackAddress (c.s + 2), stackAddress (c.s + 3)]
  | _ => []

/-- The addresses of the bytes that an instruction depends on. -/
def footprintOf (c : Cpu) (d : Descriptor) : List UInt16 :=
  addressesFrom c.pc d.bytes ++ c.pointerBytes (c.pc + 1) d.mode ++ c.readBy d

/-- The addresses of the bytes that the next step depends on. Behind a byte that is no opcode
nothing is read. -/
def footprint (c : Cpu) : List UInt16 :=
  if c.halted then [] else c.descriptor?.elim [c.pc] c.footprintOf

/-- An instruction with one operand consists of the opcode and the operand bytes. -/
theorem addressesFrom_bytes {d : Descriptor} (hbytes : d.bytes = 1 + d.mode.operandLength)
    (pc : UInt16) :
    addressesFrom pc d.bytes = pc :: addressesFrom (pc + 1) d.mode.operandLength := by
  rw [hbytes]
  cases d.mode <;> rfl

/-- If addresses are asked for, the first one is among them. -/
theorem mem_addressesFrom {start : UInt16} {count : UInt8} (hcount : 0 < count.toNat) :
    start ∈ addressesFrom start count :=
  List.mem_iterate.mpr ⟨0, hcount, rfl⟩

/-- An operation reads where the rule says, and only there. -/
theorem reads_eq {c : Cpu} {d : Descriptor} {o : Operands}
    (ho : c.operands (c.pc + 1) d d.mnemonic.operation.access = .ok o) (extra : UInt8) :
    d.mnemonic.operation.reads o (c.supplied d o extra) = c.readBy d := by
  unfold readBy
  cases hm : d.mnemonic with
  | adc | sbc | and | ora | eor | bit | cmp | cpx | cpy | lda | ldx | ldy
  | asl | lsr | rol | ror | inc | dec =>
    rw [hm] at ho
    exact congrArg Option.toList (address?_of_operands ho nofun)
  | trb | tsb | rmb _ | smb _ | bbr _ | bbs _ =>
    rw [hm] at ho
    exact (location_of_operands ho (by simp [Mnemonic.operation, Operation.access])).symm
  | _ => rfl

section Agreement

variable {c : Cpu} {m : Memory}

/-- The instruction at PC depends on the byte there only. -/
theorem descriptor?_of_agree (hopcode : m.read c.pc = c.memory.read c.pc) :
    { c with memory := m }.descriptor? = c.descriptor? := by
  rw [descriptor?, descriptor?, opcode, opcode, hopcode]

/-- What an addressing mode refers to depends on the operand bytes and the pointer. -/
theorem locate_of_agree {pc : UInt16} {mode : AddressingMode}
    (hbytes : ∀ a ∈ addressesFrom pc mode.operandLength, m.read a = c.memory.read a)
    (hpointer : ∀ a ∈ c.pointerBytes pc mode, m.read a = c.memory.read a) :
    { c with memory := m }.locate pc mode = c.locate pc mode := by
  cases mode with
  | implied | accumulator => rfl
  | immediate | relative | zeroPage | zeroPageX | zeroPageY =>
    have hbyte := hbytes pc (List.mem_singleton_self pc)
    simp only [locate, hbyte]
  | zeroPageIndirect | zeroPageIndirectX | zeroPageIndirectY =>
    have hbyte := hbytes pc (List.mem_singleton_self pc)
    have htarget := Memory.readZeroPageWord_of_agree hpointer
    simp only [locate, hbyte, htarget]
  | absolute | absoluteX | absoluteY =>
    have hword := Memory.readWord_of_agree hbytes
    simp only [locate, hword]
  | absoluteIndirect | absoluteIndirectX =>
    have hword := Memory.readWord_of_agree hbytes
    have htarget := Memory.readWord_of_agree hpointer
    simp only [locate, hword, htarget]

/-- The operand of a mode depends on the operand bytes and the pointer. -/
theorem operandAt_of_agree {pc : UInt16} {mode : AddressingMode} (accepts : Operand → Bool)
    (hbytes : ∀ a ∈ addressesFrom pc mode.operandLength, m.read a = c.memory.read a)
    (hpointer : ∀ a ∈ c.pointerBytes pc mode, m.read a = c.memory.read a) :
    { c with memory := m }.operandAt pc mode accepts = c.operandAt pc mode accepts := by
  rw [operandAt, operandAt, locate_of_agree hbytes hpointer]

/-- The operands of an instruction depend on its bytes and the pointer. -/
theorem operands_of_agree {d : Descriptor} {access : Operation.Access}
    (hsuits : d.suits access = true)
    (hbytes : ∀ a ∈ addressesFrom c.pc d.bytes, m.read a = c.memory.read a)
    (hpointer : ∀ a ∈ c.pointerBytes (c.pc + 1) d.mode, m.read a = c.memory.read a) :
    { c with memory := m }.operands (c.pc + 1) d access = c.operands (c.pc + 1) d access := by
  cases access with
  | nothing => rfl
  | value | place | address =>
    have hlength := Descriptor.bytes_of_suits hsuits (by decide)
    rw [addressesFrom_bytes hlength, List.forall_mem_cons] at hbytes
    simp only [operands, operandAt_of_agree _ hbytes.2 hpointer]
  | addressAndTarget =>
    obtain ⟨hmode, hsecond, hlength⟩ :
        d.mode = .zeroPage ∧ d.secondMode = some .relative ∧ d.bytes = 3 := by
      simpa [Descriptor.suits] using hsuits
    rw [hlength] at hbytes
    have hlocation := hbytes (c.pc + 1) (by simp [addressesFrom])
    have hdistance := hbytes (c.pc + 1 + 1) (by simp [addressesFrom])
    simp only [operands_of_bitBranch hmode hsecond, hlocation, hdistance]

/-- On an image that agrees with memory where an instruction reads, the instruction has the same
effect, and it makes the same writes. -/
theorem executed_of_agree {d : Descriptor} {o : Operands}
    (ho : c.operands (c.pc + 1) d d.mnemonic.operation.access = .ok o)
    (hdata : ∀ a ∈ c.readBy d, m.read a = c.memory.read a) :
    ∃ written, written.map Prod.fst = c.writtenBy d ∧
      (c.executed d d.mnemonic.operation o).memory = c.memory.overlay written ∧
      { c with memory := m }.executed d d.mnemonic.operation o =
        { c.executed d d.mnemonic.operation o with memory := m.overlay written } := by
  have hreads (extra : UInt8) : ∀ a ∈ d.mnemonic.operation.reads o (c.supplied d o extra),
      m.read a = c.memory.read a := by
    rwa [reads_eq ho extra]
  have hextra : d.mnemonic.operation.extraCycles d o { c with memory := m } =
      d.mnemonic.operation.extraCycles d o c := extraCycles_of_agree (hreads 0)
  rw [executed_eq, executed_eq, hextra]
  generalize d.mnemonic.operation.extraCycles d o c = extra
  have hperform : d.mnemonic.operation.perform d o ({ c with memory := m }.supplied d o extra) =
      { d.mnemonic.operation.perform d o (c.supplied d o extra) with
        memory := m.overlay (d.mnemonic.operation.writes d o (c.supplied d o extra)) } :=
    perform_of_agree (hreads extra)
  rw [hperform]
  exact ⟨_, addresses_writes ho extra, memory_perform _ _ _ _, rfl⟩

/-- A step depends on the bytes of its footprint only. -/
theorem step_of_agree (hdispatch : c.dispatch = .standard)
    (hagree : ∀ a ∈ c.footprint, m.read a = c.memory.read a) :
    { c with memory := m }.step.result = c.step.result ∧
      ∃ written, written.map Prod.fst = c.writeSet ∧
        c.step.cpu.memory = c.memory.overlay written ∧
        { c with memory := m }.step.cpu = { c.step.cpu with memory := m.overlay written } := by
  have hstep := standardStepsTo_step hdispatch
  unfold footprint at hagree
  unfold writeSet
  generalize c.step = out at hstep ⊢
  cases hstep with
  | halted hhalted =>
    have hstep' : { c with memory := m }.StepsTo _ := .halted hhalted
    rw [executing?_of_halted hhalted, hstep'.step_eq]
    exact ⟨rfl, [], rfl, rfl, rfl⟩
  | undefined hhalted hd =>
    rw [if_neg (by simp [hhalted]), hd] at hagree
    have hopcode : m.read c.pc = c.memory.read c.pc := hagree c.pc (List.mem_singleton_self _)
    have hd' : { c with memory := m }.descriptor? = none := by rw [descriptor?_of_agree hopcode, hd]
    have hstep' : { c with memory := m }.StepsTo _ := .undefined hhalted hd'
    rw [executing?_of_not_halted hhalted, hd, hstep'.step_eq]
    have hfault := congrArg (Fault.unsupportedInstruction · c.pc) hopcode
    exact ⟨congrArg Except.error hfault, [], rfl, rfl, rfl⟩
  | executed hhalted d hd o ho hnext =>
    rw [if_neg (by simp [hhalted]), hd] at hagree
    simp only [Option.elim, footprintOf, List.forall_mem_append] at hagree
    obtain ⟨⟨hbytes, hpointer⟩, hdata⟩ := hagree
    have hrow := (descriptor?_mem hd).1
    have hopcode : m.read c.pc = c.memory.read c.pc :=
      hbytes c.pc (mem_addressesFrom (bytes_pos_of_mem_standardRows d hrow))
    -- on the other image the same opcode is fetched, and it finds the same operands
    have hd' : { c with memory := m }.descriptor? = some d := by
      rw [descriptor?_of_agree hopcode, hd]
    obtain ⟨o', ho', _, hstep'⟩ := step_standard (c := { c with memory := m }) hdispatch hhalted hd'
    have hsuits := suits_of_mem_standardRows d hrow
    have hsame := (operands_of_agree hsuits hbytes hpointer).symm.trans ho'
    obtain rfl : o = o' := Except.ok.inj (ho.symm.trans hsame)
    rw [executing?_of_not_halted hhalted, hd, hstep']
    exact ⟨rfl, executed_of_agree ho hdata⟩

end Agreement

/-- Runs that start alike and differ in no byte that is read on the way stay alike: they differ at
most where they have differed from the start. -/
theorem after_of_agree {c c' : Cpu} (hdispatch : c.dispatch = .standard)
    (hsame : c' = { c with memory := c'.memory }) {n : Nat}
    (hagree : ∀ k < n, ∀ a ∈ (c.after k).footprint, c'.memory.read a = c.memory.read a) :
    c'.after n = { c.after n with memory := (c'.after n).memory } ∧
      ∀ a, c'.memory.read a = c.memory.read a →
        (c'.after n).memory.read a = (c.after n).memory.read a := by
  induction n with
  | zero => exact ⟨hsame, fun _ ha => ha⟩
  | succ n ih =>
    obtain ⟨hsame, hkept⟩ := ih fun k hk => hagree k (Nat.lt_succ_of_lt hk)
    -- what agrees at the start has agreed ever since, and so does all that the next step reads
    have hfootprint : ∀ a ∈ (c.after n).footprint,
        (c'.after n).memory.read a = (c.after n).memory.read a :=
      fun a ha => hkept a (hagree n n.lt_succ_self a ha)
    have hstandard : (c.after n).dispatch = .standard := (c.after_dispatch n).trans hdispatch
    obtain ⟨_, written, _, hmemory, hstep⟩ := step_of_agree hstandard hfootprint
    rw [← hsame] at hstep
    rw [after_succ, after_succ, hstep]
    refine ⟨rfl, fun a ha => ?_⟩
    rw [hmemory]
    exact Memory.read_overlay_of_agree (hkept a ha) written

/-- A step depends on nothing in memory but its footprint: the bytes of the instruction, those of
the pointer that its mode follows, the byte that it works on and those that it pulls. If two
processors differ in memory at most, and there not in the footprint, a step has the same result for
both, leaves them alike but for memory, and writes the same bytes at the same addresses, so that
their memories differ at most where they have differed before. -/
theorem step_noninterference (c c' : Cpu) (hdispatch : c.dispatch = .standard)
    (hsame : c' = { c with memory := c'.memory })
    (hagree : ∀ a ∈ c.footprint, c'.memory.read a = c.memory.read a) :
    c'.step.result = c.step.result ∧
      c'.step.cpu = { c.step.cpu with memory := c'.step.cpu.memory } ∧
      (∃ written, written.map Prod.fst = c.writeSet ∧
        c.step.cpu.memory = c.memory.overlay written ∧
        c'.step.cpu.memory = c'.memory.overlay written) ∧
      ∀ a, c'.memory.read a = c.memory.read a →
        c'.step.cpu.memory.read a = c.step.cpu.memory.read a := by
  obtain ⟨hresult, written, haddresses, hmemory, hstep⟩ := step_of_agree hdispatch hagree
  rw [← hsame] at hresult hstep
  rw [hstep]
  refine ⟨hresult, rfl, ⟨written, haddresses, hmemory, rfl⟩, fun a ha => ?_⟩
  rw [hmemory]
  exact Memory.read_overlay_of_agree ha written

/-- A processor about to load a byte through a pointer that wraps around the end of page zero, with
an instruction that ends where the address space does. -/
def loading : Cpu where
  pc := 0xFFFE
  memory := ((((Memory.zero.write 0xFFFE 0xB1).write 0xFFFF 0xFF).write 0x00FF 0x34).write
    0x0000 0x12).write 0x1234 0x80

/-- A byte that is not read makes no difference to the step. -/
theorem step_noninterference_loading :
    let c' : Cpu := { loading with memory := loading.memory.write 0x0100 0x56 }
    loading.footprint = [0xFFFE, 0xFFFF, 0x00FF, 0x0000, 0x1234] ∧
      c'.step.result = loading.step.result ∧
      c'.step.cpu = { loading.step.cpu with memory := c'.memory } := by
  intro c'
  have hopcode : loading.opcode = 0xB1 := by simp [opcode, loading, Memory.read_write]
  have hd : loading.descriptor? = some (.single 0xB1 .lda .zeroPageIndirectY 5) := by
    rw [descriptor?_eq_find?, hopcode]
    decide +kernel
  have hfootprint : loading.footprint = [0xFFFE, 0xFFFF, 0x00FF, 0x0000, 0x1234] := by
    rw [footprint, hd]
    simp [footprintOf, addressesFrom, readBy, pointerBytes, Descriptor.single, effectiveAddress?,
      locate, indexed, loading, Operand.address?, Memory.readZeroPageWord, Memory.read_write,
      AddressingMode.operandLength]
    rfl
  have hagree : ∀ a ∈ loading.footprint, c'.memory.read a = loading.memory.read a := by
    intro a ha
    rw [hfootprint] at ha
    have hne : a ≠ 0x0100 := by
      rintro rfl
      revert ha
      decide
    exact Memory.read_write_of_ne _ _ hne
  obtain ⟨hresult, hrest, ⟨written, haddresses, _, hmemory⟩, _⟩ :=
    step_noninterference loading c' rfl rfl hagree
  have hset : loading.writeSet = [] := by
    rw [writeSet, executing?_of_not_halted rfl, hd]
    rfl
  have hwritten : written = [] := List.map_eq_nil_iff.mp (haddresses.trans hset)
  have hkept : c'.step.cpu.memory = c'.memory := by
    rw [hmemory, hwritten]
    rfl
  rw [hkept] at hrest
  exact ⟨hfootprint, hresult, hrest⟩

end Cpu

end Core65C02
