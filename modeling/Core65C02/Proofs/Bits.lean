import Core65C02.Proofs.Cycles
import Core65C02.Proofs.Frame
import Core65C02.Proofs.Latest
import Core65C02.Proofs.Program

/-!
# Bits of page zero

Two instructions set and clear a bit of a byte in page zero, and two branch on one. The bit is in
the opcode, so there are eight opcodes of each, and the table names the bit in the mnemonic. The
main statement is that after any number of assignments each bit of page zero is as the last one says
that names it, that nothing else has changed, and that a branch sees just this.
-/

namespace Core65C02

/-- An instruction that sets or clears a bit of a byte in page zero. -/
structure BitAssignment where
  /-- The bit. -/
  bit : Fin 8
  /-- Where the byte is in page zero. -/
  location : UInt8
  /-- Whether the bit is set. -/
  state : Bool

/-- An instruction that branches if a bit of a byte in page zero is in a state. -/
structure BitTest where
  /-- The bit. -/
  bit : Fin 8
  /-- Where the byte is in page zero. -/
  location : UInt8
  /-- Whether the branch is taken if the bit is set, or if it is clear. -/
  state : Bool
  /-- How far the branch leads. -/
  distance : UInt8

namespace BitAssignment

/-- The name of the instruction. -/
def mnemonic (e : BitAssignment) : Mnemonic := if e.state then .smb e.bit else .rmb e.bit

/-- The opcode of the instruction, which has the bit in its high digit. -/
def opcode (e : BitAssignment) : UInt8 := (if e.state then 0x87 else 0x07) + 0x10 * .ofNat e.bit

/-- The bytes of the instruction. -/
def code (e : BitAssignment) : List UInt8 := [e.opcode, e.location]

/-- Whether an assignment is to a bit of a byte in page zero. -/
def names (location : UInt8) (bit : Fin 8) (e : BitAssignment) : Bool :=
  e.location = location && e.bit = bit

end BitAssignment

namespace BitTest

/-- The name of the instruction. -/
def mnemonic (t : BitTest) : Mnemonic := if t.state then .bbs t.bit else .bbr t.bit

/-- The opcode of the instruction, which has the bit in its high digit. -/
def opcode (t : BitTest) : UInt8 := (if t.state then 0x8F else 0x0F) + 0x10 * .ofNat t.bit

/-- The bytes of the instruction. -/
def code (t : BitTest) : List UInt8 := [t.opcode, t.location, t.distance]

end BitTest

/-- The mnemonic of an assignment gives a bit its state. -/
theorem BitAssignment.operation_mnemonic (e : BitAssignment) :
    e.mnemonic.operation = .assignBit e.state := by
  unfold mnemonic
  cases e.state <;> rfl

/-- The mnemonic of a test branches on the state of a bit. -/
theorem BitTest.operation_mnemonic (t : BitTest) :
    t.mnemonic.operation = .branchOnBit t.state := by
  unfold mnemonic
  cases t.state <;> rfl

/-- A mask has its own bit set and no other, and its complement has all the others. -/
theorem testBit_bitMask : ∀ n k : Fin 8,
    (bitMask (.ofNat n)).toNat.testBit k = decide (n = k) ∧
      (~~~bitMask (.ofNat n)).toNat.testBit k = !decide (n = k) := by
  decide

/-- Assigning a bit of a byte leaves the other bits alone. -/
theorem testBit_assignBits (value : UInt8) (n k : Fin 8) (state : Bool) :
    (assignBits value (bitMask (.ofNat n)) state).toNat.testBit k =
      if n = k then state else value.toNat.testBit k := by
  obtain ⟨hset, hclear⟩ := testBit_bitMask n k
  unfold assignBits
  cases state with
  | true =>
    rw [if_pos rfl, UInt8.toNat_or, Nat.testBit_or, hset]
    by_cases h : n = k <;> simp [h]
  | false =>
    rw [if_neg Bool.false_ne_true, UInt8.toNat_and, Nat.testBit_and, hclear]
    by_cases h : n = k <;> simp [h]

/-- Bits are assigned in page zero. -/
theorem mode_of_assignBit : ∀ d ∈ standardRows, ∀ state,
    d.mnemonic.operation = .assignBit state → d.mode = .zeroPage := by
  decide +kernel

namespace Cpu

/-- A bit of a byte in page zero. -/
def bitAt (c : Cpu) (location : UInt8) (bit : Fin 8) : Bool :=
  (c.memory.read location.toUInt16).toNat.testBit bit

/-- A processor of the standard dispatch is about to assign a bit. -/
structure Assigns (c : Cpu) (e : BitAssignment) : Prop where
  /-- Every mnemonic has its own operation. -/
  dispatch : c.dispatch = .standard
  /-- The instruction is at PC, and the program has not ended. -/
  executing : ∃ d, c.executing? = some d ∧ d.mnemonic = e.mnemonic
  /-- The byte behind the opcode says where the byte is. -/
  location : c.memory.read (c.pc + 1) = e.location

/-- A processor of the standard dispatch is about to test a bit. -/
structure Tests (c : Cpu) (t : BitTest) : Prop where
  /-- Every mnemonic has its own operation. -/
  dispatch : c.dispatch = .standard
  /-- The instruction is at PC, and the program has not ended. -/
  executing : ∃ d, c.executing? = some d ∧ d.mnemonic = t.mnemonic
  /-- The byte behind the opcode says where the byte is. -/
  location : c.memory.read (c.pc + 1) = t.location
  /-- The byte behind that one says how far the branch leads. -/
  distance : c.memory.read (c.pc + 2) = t.distance

/-- Memory behind page zero, the registers and the flags have not changed. -/
structure SameOutside (c c' : Cpu) : Prop where
  /-- The bytes behind page zero have not changed. -/
  memory : ∀ address, 0x0100 ≤ address → c'.memory.read address = c.memory.read address
  /-- The registers have not changed. -/
  register : ∀ r, c'.register r = c.register r
  /-- The flags have not changed. -/
  status : c'.status = c.status

/-- The next step is a branch that is taken or not, which decides where it leads and what it
costs. -/
structure Branches (c : Cpu) (following target : UInt16) (taken : Bool) : Prop where
  /-- The step succeeds. -/
  result : c.step.result = .ok .proceed
  /-- Where the step leads. -/
  pc : c.step.cpu.pc = if taken then target else following
  /-- What the step costs beyond the base cost. -/
  extraCycles : c.step.cpu.last.map (·.extraCycles) =
    some (Operation.branchCycles taken (pagesDiffer following target))

/-- Where nothing happens, nothing changes outside of page zero. -/
theorem SameOutside.refl (c : Cpu) : c.SameOutside c := ⟨fun _ _ => rfl, fun _ => rfl, rfl⟩

/-- What does not change in two steps does not change in both together. -/
theorem SameOutside.trans {c c' c'' : Cpu} (h : c.SameOutside c') (h' : c'.SameOutside c'') :
    c.SameOutside c'' where
  memory address haddress := (h'.memory address haddress).trans (h.memory address haddress)
  register r := (h'.register r).trans (h.register r)
  status := h'.status.trans h.status

/-- The step of an instruction that assigns a bit, in full. -/
theorem Assigns.step_eq {c : Cpu} {e : BitAssignment} (hassigns : c.Assigns e) :
    ∃ pc last totalCycles, c.step = ⟨{ c with
      memory := c.memory.write e.location.toUInt16
        (assignBits (c.memory.read e.location.toUInt16) (bitMask (.ofNat e.bit)) e.state)
      pc := pc, last := last, totalCycles := totalCycles }, .ok .proceed, []⟩ := by
  obtain ⟨hdispatch, ⟨d, hexecuting, hm⟩, hlocation⟩ := hassigns
  obtain ⟨hhalted, hd⟩ := executing?_eq_some_iff.mp hexecuting
  obtain ⟨o, ho, -, hstep⟩ := step_standard hdispatch hhalted hd
  have hrow := (descriptor?_mem hd).1
  have hop : d.mnemonic.operation = .assignBit e.state := hm ▸ e.operation_mnemonic
  have hbit : d.bitIndex = .ofNat e.bit := by
    refine bitIndex_of_mem_standardRows d hrow e.bit ?_
    rw [hm, BitAssignment.mnemonic]
    cases e.state <;> simp
  rw [hop] at ho hstep
  have hplace : o.location = e.location.toUInt16 := by
    have h := location_of_operands ho (by simp [Operation.access])
    rw [effectiveAddress?, mode_of_assignBit d hrow e.state hop] at h
    rw [← hlocation]
    exact (List.cons.inj h).1.symm
  rw [executed_eq] at hstep
  simp only [Operation.perform, hplace, hbit] at hstep
  exact ⟨_, _, _, hstep⟩

/-- An assignment decides about the bit that it names and leaves the others alone. -/
theorem Assigns.bitAt_step {c : Cpu} {e : BitAssignment} (hassigns : c.Assigns e)
    (location : UInt8) (bit : Fin 8) :
    c.step.cpu.bitAt location bit =
      if e.names location bit then e.state else c.bitAt location bit := by
  obtain ⟨pc, last, totalCycles, hstep⟩ := hassigns.step_eq
  unfold bitAt BitAssignment.names
  rw [hstep, Memory.read_write]
  by_cases hlocation : e.location = location
  · subst hlocation
    rw [if_pos rfl, testBit_assignBits]
    simp
  · have hother : location.toUInt16 ≠ e.location.toUInt16 := fun h =>
      hlocation (UInt8.toUInt16_inj.mp h).symm
    rw [if_neg hother]
    simp [hlocation]

/-- An assignment changes nothing outside of page zero, apart from PC and the counters. -/
theorem Assigns.sameOutside_step {c : Cpu} {e : BitAssignment} (hassigns : c.Assigns e) :
    c.SameOutside c.step.cpu := by
  obtain ⟨pc, last, totalCycles, hstep⟩ := hassigns.step_eq
  rw [hstep]
  refine ⟨fun address haddress => ?_, fun r => by cases r <;> rfl, rfl⟩
  refine Memory.read_write_of_ne _ _ ?_
  rintro rfl
  exact UInt16.not_lt.mpr haddress (toUInt16_lt e.location)

/-- After assignments each bit is as the last of them says that names it. -/
theorem Follows.bitAt_after {c : Cpu} {es : List BitAssignment} (hfollows : c.Follows Assigns es)
    (location : UInt8) (bit : Fin 8) :
    (c.after es.length).bitAt location bit =
      latest (·.names location bit) (·.state) (c.bitAt location bit) es := by
  induction es generalizing c with
  | nil => rfl
  | cons e es ih =>
    obtain ⟨hassigns, hrest⟩ := hfollows
    -- for the others, what the first assignment leaves is what was there before
    rw [latest_cons, ← hassigns.bitAt_step]
    exact ih hrest

/-- Assignments succeed and change nothing but bits of page zero. -/
theorem Follows.sameOutside_after {c : Cpu} {es : List BitAssignment}
    (hfollows : c.Follows Assigns es) :
    c.SameOutside (c.after es.length) ∧
      ∀ i < es.length, (c.after i).step.result = .ok .proceed := by
  induction es generalizing c with
  | nil => exact ⟨.refl c, nofun⟩
  | cons e es ih =>
    obtain ⟨hassigns, hrest⟩ := hfollows
    obtain ⟨hsame, hresults⟩ := ih hrest
    refine ⟨hassigns.sameOutside_step.trans hsame, fun i hi => ?_⟩
    cases i with
    | zero =>
      obtain ⟨pc, last, totalCycles, hstep⟩ := hassigns.step_eq
      rw [after, hstep]
    | succ i => exact hresults i (Nat.lt_of_succ_lt_succ hi)

/-- What decides about a branch on a bit: the bit itself, and the addresses behind the branch and
where it leads. -/
theorem Tests.exists_operands {c : Cpu} {t : BitTest} (htests : c.Tests t) :
    ∃ d o, c.step = ⟨c.executed d (.branchOnBit t.state) o, .ok .proceed, []⟩ ∧
      Operation.bitHolds d o c t.state = (c.bitAt t.location t.bit == t.state) ∧
      o.next = c.pc + 3 ∧ o.target = c.pc + 3 + signExtended t.distance ∧
      o.targetCrossed = pagesDiffer o.next o.target := by
  obtain ⟨hdispatch, ⟨d, hexecuting, hm⟩, hlocation, hdistance⟩ := htests
  obtain ⟨hhalted, hd⟩ := executing?_eq_some_iff.mp hexecuting
  obtain ⟨o, ho, hnext, hstep⟩ := step_standard hdispatch hhalted hd
  have hrow := (descriptor?_mem hd).1
  have hop : d.mnemonic.operation = .branchOnBit t.state := hm ▸ t.operation_mnemonic
  have hsuits := suits_of_mem_standardRows d hrow
  obtain ⟨hmode, hsecond, hbytes⟩ :
      d.mode = .zeroPage ∧ d.secondMode = some .relative ∧ d.bytes = 3 := by
    simpa [hop, Operation.access, Descriptor.suits] using hsuits
  rw [hop] at ho hstep
  obtain ⟨hplace, htarget⟩ := location_and_target_of_bitBranch hmode hsecond ho hnext
  have hfollowing : c.following d = c.pc + 3 := by
    rw [following, hbytes]
    rfl
  have hlast : c.pc + 3 - 1 = c.pc + 2 := by
    rw [UInt16.sub_eq_add_neg, UInt16.add_assoc]
    rfl
  refine ⟨d, o, hstep, ?_, hnext.trans hfollowing, ?_, ?_⟩
  · rw [bitHolds_eq_takesBranch hrow hop hplace, hm, bitAt, ← hlocation]
    unfold BitTest.mnemonic
    cases t.state <;> simp [takesBranch, selectedBit]
  · rw [htarget, branchTarget, hfollowing, hlast, hdistance]
  · rw [targetCrossed_of_bitBranch hmode hsecond ho hnext, htarget]
    exact congrArg (pagesDiffer · _) hnext.symm

/-- A branch is taken if the bit is in its state. -/
theorem Tests.branches {c : Cpu} {t : BitTest} (htests : c.Tests t) :
    c.Branches (c.pc + 3) (c.pc + 3 + signExtended t.distance)
      (c.bitAt t.location t.bit == t.state) := by
  obtain ⟨d, o, hstep, hholds, hnext, htarget, hcrossed⟩ := htests.exists_operands
  rw [← htarget, ← hnext, ← hholds]
  constructor <;> rw [hstep]
  · rw [executed_eq, perform_pc]
    rfl
  · rw [executed_eq, (perform_frame _ d o _).1, ← hcrossed]
    rfl

end Cpu

/-! ### Programs of assignments -/

/-- The table agrees with the opcodes about the bits, and the mnemonics name them. -/
theorem BitAssignment.row_eq (e : BitAssignment) :
    (standardRows.reverse.find? fun d => d.opcode == e.opcode) =
      some (.single e.opcode e.mnemonic .zeroPage 5) := by
  -- the location does not matter, so sixteen cases can be tested
  have hall : ∀ (bit : Fin 8) (state : Bool),
      let code : UInt8 := (if state then 0x87 else 0x07) + 0x10 * .ofNat bit
      (standardRows.reverse.find? fun d => d.opcode == code) =
        some (.single code (if state then .smb bit else .rmb bit) .zeroPage 5) := by
    decide +kernel
  exact hall e.bit e.state

/-- The row of a test is that of a branch on a bit. -/
theorem BitTest.row_eq (t : BitTest) :
    (standardRows.reverse.find? fun d => d.opcode == t.opcode) =
      some (.bitBranch t.opcode t.mnemonic) := by
  have hall : ∀ (bit : Fin 8) (state : Bool),
      let code : UInt8 := (if state then 0x8F else 0x0F) + 0x10 * .ofNat bit
      (standardRows.reverse.find? fun d => d.opcode == code) =
        some (.bitBranch code (if state then .bbs bit else .bbr bit)) := by
    decide +kernel
  exact hall t.bit t.state

namespace Cpu

variable {c : Cpu} {rest : List UInt8}

/-- An assignment that is not in page zero itself is made and leads to the rest of the program. -/
theorem Ready.assigns {e : BitAssignment} (hready : c.Ready (0x0100 ≤ ·) (e.code ++ rest)) :
    c.Assigns e ∧ c.step.cpu.Ready (0x0100 ≤ ·) rest := by
  obtain ⟨-, -, -, hlocation, -⟩ := hready.holds
  have hd := hready.descriptor?_eq e.row_eq
  have hop := e.operation_mnemonic
  refine ⟨⟨hready.dispatch, ⟨_, executing?_eq_some_iff.mpr ⟨hready.halted, hd⟩, rfl⟩, hlocation⟩,
    hready.step hd rfl ?_ ?_ fun address haddress => ?_⟩
  · rw [successor_eq, Descriptor.single, hop]
  · intro hhalt
    rw [Descriptor.single, hop] at hhalt
    cases hhalt
  · rw [writtenBy_eq, Descriptor.single, hop] at haddress
    have haddress : address = (c.memory.read (c.pc + 1)).toUInt16 := by
      simpa [effectiveAddress?, locate, Operand.address?] using haddress
    rw [haddress]
    exact UInt16.not_le.mpr (toUInt16_lt _)

/-- A test is made, wherever it is. -/
theorem Ready.tests {spared : UInt16 → Prop} {t : BitTest}
    (hready : c.Ready spared (t.code ++ rest)) : c.Tests t := by
  obtain ⟨-, -, -, hlocation, -, hdistance, -⟩ := hready.holds
  have hd := hready.descriptor?_eq t.row_eq
  rw [UInt16.add_assoc] at hdistance
  exact ⟨hready.dispatch, ⟨_, executing?_eq_some_iff.mpr ⟨hready.halted, hd⟩, rfl⟩, hlocation,
    hdistance⟩

/-- Bits of page zero are what was last assigned to them. Assignments succeed; after any number of
them each bit of page zero is as the last one says that names it, or as it was if none does, and the
rest of memory, the registers and the flags are as they were. A test that follows is taken if it is
for the state in which the bit is then, and it leads as far as its last byte says. A program of such
instructions that is not in page zero does what its bytes say. -/
theorem assignments_exact (c : Cpu) (es : List BitAssignment) :
    (c.Follows Assigns es →
      (∀ i < es.length, (c.after i).step.result = .ok .proceed) ∧
      (∀ location bit, (c.after es.length).bitAt location bit =
        latest (·.names location bit) (·.state) (c.bitAt location bit) es) ∧
      c.SameOutside (c.after es.length) ∧
      ∀ t, (c.after es.length).Tests t →
        let following := (c.after es.length).pc + 3
        (c.after es.length).Branches following (following + signExtended t.distance)
          (latest (·.names t.location t.bit) (·.state) (c.bitAt t.location t.bit) es == t.state)) ∧
    (∀ rest, c.Ready (0x0100 ≤ ·) (es.flatMap BitAssignment.code ++ rest) →
      c.Follows Assigns es) ∧
    ∀ t rest, c.Ready (0x0100 ≤ ·) (es.flatMap BitAssignment.code ++ (t.code ++ rest)) →
      (c.after es.length).Tests t := by
  have hprogram {rest : List UInt8}
      (hready : c.Ready (0x0100 ≤ ·) (es.flatMap BitAssignment.code ++ rest)) :
      c.Follows Assigns es ∧ (c.after es.length).Ready (0x0100 ≤ ·) rest :=
    hready.follows_rest fun e _ _ _ h => h.assigns
  refine ⟨fun hfollows => ?_, fun rest hready => (hprogram hready).1,
    fun t rest hready => (hprogram hready).2.tests⟩
  obtain ⟨hsame, hresults⟩ := hfollows.sameOutside_after
  refine ⟨hresults, hfollows.bitAt_after, hsame, fun t htests => ?_⟩
  rw [← hfollows.bitAt_after]
  exact htests.branches

/-- A processor about to assign bits of the bytes at `$00FF` and `$0000`, and then to branch on one
of them, backwards from the start of page zero. -/
def flagging : Cpu where
  pc := 0xFFF5
  memory := Memory.zero.overlay [(0xFFF5, 0xF7), (0xFFF6, 0xFF), (0xFFF7, 0x77), (0xFFF8, 0xFF),
    (0xFFF9, 0x87), (0xFFFA, 0xFF), (0xFFFB, 0xB7), (0xFFFD, 0x8F), (0xFFFE, 0xFF), (0xFFFF, 0x80),
    (0x00FF, 0x20)]

/-- The assignments that it is about to make. -/
def flags : List BitAssignment :=
  [⟨7, 0xFF, true⟩, ⟨7, 0xFF, false⟩, ⟨0, 0xFF, true⟩, ⟨3, 0x00, true⟩]

/-- Its program is the assignments and then a test of bit 0. -/
theorem ready_flagging : flagging.Ready (0x0100 ≤ ·)
    (flags.flatMap BitAssignment.code ++ ((BitTest.mk 0 0xFF true 0x80).code ++ [])) := by
  have hcode : flags.flatMap BitAssignment.code ++ ((BitTest.mk 0 0xFF true 0x80).code ++ []) =
      [0xF7, 0xFF, 0x77, 0xFF, 0x87, 0xFF, 0xB7, 0x00, 0x8F, 0xFF, 0x80] := by
    decide
  refine ⟨rfl, rfl, ?_⟩
  rw [hcode]
  simp [Memory.Holds, flagging, Memory.overlay, Memory.read_write, Memory.read_zero]

/-- The later assignment to bit 7 wins, other bits are as they were or as they were assigned, and
the branch is taken. -/
theorem assignments_exact_flagging :
    let last := flagging.after flags.length
    flagging.Follows Assigns flags ∧ last.bitAt 0xFF 7 = false ∧ last.bitAt 0xFF 0 = true ∧
      last.bitAt 0xFF 5 = true ∧ last.bitAt 0x00 3 = true ∧
      last.step.cpu.pc = last.pc + 3 + signExtended 0x80 := by
  obtain ⟨hassigned, hassigns, htests⟩ := assignments_exact flagging flags
  have hfollows := hassigns _ ready_flagging
  obtain ⟨-, hbits, -, hbranch⟩ := hassigned hfollows
  have hset (before : Bool) : latest (·.names 0xFF 0) (·.state) before flags = true := rfl
  have hpc := (hbranch _ (htests _ _ ready_flagging)).pc
  rw [hset] at hpc
  have hold : flagging.bitAt 0xFF 5 = true := by
    simp [bitAt, flagging, Memory.overlay, Memory.read_write]
    decide
  exact ⟨hfollows, hbits 0xFF 7, hbits 0xFF 0, (hbits 0xFF 5).trans hold, hbits 0x00 3, hpc⟩

end Cpu

end Core65C02
