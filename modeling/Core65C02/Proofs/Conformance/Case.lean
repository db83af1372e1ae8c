import Core65C02.Conformance.Case
import Core65C02.Proofs.Cycles
import Core65C02.Proofs.Snapshot.Component

/-!
# What a conformance case finds

A case takes over its first state, makes one step and compares the processor with its second state.
The main statement is that this accepts exactly the steps that end in the second state, that what
is reported otherwise is every difference and nothing else, and that a case which is made of
what a step really leads to passes until one component of it is changed.
-/

namespace Core65C02.Conformance

namespace Outcome

/-- Cycles do not match if both numbers are known and differ. -/
theorem cyclesMatch_eq_false_iff {o : Outcome} :
    o.cyclesMatch = false ↔
      ∃ expected actual, o.expectedCycles = some expected ∧ o.actualCycles = some actual ∧
        expected ≠ actual := by
  unfold cyclesMatch
  cases o.expectedCycles <;> cases o.actualCycles <;> simp

end Outcome

namespace Case

/-- The processor that has taken over the first state. -/
def start (test : Case) : Cpu := (({} : Cpu).importRaw test.initial).2

/-- What the step of a case leads to. -/
def after (test : Case) : StepOutcome := test.start.step

variable {test : Case} {initial expected : Snapshot}

/-- A case with a valid first state starts from the processor that this state describes. -/
theorem start_of_validate (hinitial : test.initial.validate = .ok initial) :
    test.start = Cpu.ofSnapshot initial := by
  rw [start, Cpu.importRaw_of_ok hinitial]
  rfl

/-- A case is not run if one of its states is wrong, the first one before the second one. -/
theorem run_eq_error_iff {e : StateError} : test.run = .error e ↔
    test.initial.FirstFault e ∨ test.initial.Valid ∧ test.expected.FirstFault e := by
  rw [← RawState.validate_eq_error_iff_firstFault, ← RawState.validate_eq_error_iff_firstFault,
    ← RawState.exists_validate_iff]
  unfold run
  simp only [RawState.bind_eq_error_iff]
  constructor
  · rintro (hinitial | ⟨initial, hinitial, hexpected | ⟨expected, hexpected, hrun⟩⟩)
    · exact .inl hinitial
    · exact .inr ⟨⟨initial, hinitial⟩, hexpected⟩
    · split at hrun <;> cases hrun
  · rintro (hinitial | ⟨⟨initial, hinitial⟩, hexpected⟩)
    · exact .inl hinitial
    · exact .inr ⟨initial, hinitial, .inl hexpected⟩

/-- The number of accesses of a case, if they are known. -/
def accessCount? (test : Case) : Option Nat :=
  if test.accesses.isEmpty then none else some (test.accesses.length % (1 <<< 32))

/-- Accesses are counted if there are any. -/
theorem accessCount?_eq_some_iff {n : Nat} (hlength : test.accesses.length < 1 <<< 32) :
    test.accessCount? = some n ↔ test.accesses ≠ [] ∧ test.accesses.length = n := by
  rw [accessCount?, Nat.mod_eq_of_lt hlength]
  by_cases hempty : test.accesses = [] <;> simp [hempty]

/-- The outcome of a case whose states are valid, the second one as it is read. -/
def outcome (test : Case) (expected : Snapshot) : Outcome :=
  match test.after.result with
  | .ok _ => ⟨test.name, expected.diff test.after.cpu.snapshot, none, test.accessCount?,
      test.after.cpu.last.map Instruction.cycles⟩
  | .error fault => ⟨test.name, [], some fault, test.accessCount?, none⟩

/-- A case with two valid states is judged. -/
theorem run_of_validate (hinitial : test.initial.validate = .ok initial)
    (hexpected : test.expected.validate = .ok expected) :
    test.run = .ok (test.outcome expected) := by
  unfold run outcome
  rw [hinitial, hexpected, after, start_of_validate hinitial]
  simp only [bind, Except.bind]
  cases (Cpu.ofSnapshot initial).step.result <;> rfl

/-- A case whose step succeeds reports what differs, and it passes if that is nothing. -/
theorem run_of_ok {r : StepResult} (hinitial : test.initial.Valid) (hexpected : test.expected.Valid)
    (hstep : test.after.result = .ok r) :
    ∃ o, test.run = .ok o ∧ o.name = test.name ∧ o.fault = none ∧
      o.mismatches = Component.all.filterMap (test.expected.report? test.after.cpu) ∧
      o.expectedCycles = test.accessCount? ∧
      o.actualCycles = test.after.cpu.last.map Instruction.cycles ∧
      (o.passed = true ↔ test.expected.Conforms test.after.cpu) := by
  obtain ⟨initial, hinitial⟩ := RawState.exists_validate_iff.mpr hinitial
  obtain ⟨expected, hexpected⟩ := RawState.exists_validate_iff.mpr hexpected
  have hdescribes := RawState.describes_of_validate hexpected
  have houtcome : test.outcome expected = ⟨test.name, expected.diff test.after.cpu.snapshot, none,
      test.accessCount?, test.after.cpu.last.map Instruction.cycles⟩ := by
    rw [outcome, hstep]
  rw [run_of_validate hinitial hexpected, houtcome]
  refine ⟨_, rfl, rfl, rfl, hdescribes.diff_eq _, rfl, rfl, ?_⟩
  rw [← hdescribes.diff_eq_nil_iff]
  simp [Outcome.passed]

/-- A case whose step fails tells why, and nothing else. -/
theorem run_of_error {fault : Fault} (hinitial : test.initial.Valid)
    (hexpected : test.expected.Valid) (hstep : test.after.result = .error fault) :
    test.run = .ok ⟨test.name, [], some fault, test.accessCount?, none⟩ := by
  obtain ⟨initial, hinitial⟩ := RawState.exists_validate_iff.mpr hinitial
  obtain ⟨expected, hexpected⟩ := RawState.exists_validate_iff.mpr hexpected
  rw [run_of_validate hinitial hexpected, outcome, hstep]

/-- A case of an instruction that does nothing, with bit 5 set on one side only and one access too
many. -/
def waiting : Case where
  name := "ea"
  initial := { pc := some 0x0600, s := some 0xFD, a := some 0x04, x := some 0x01, y := some 0x02,
               p := some 0x24, ram := [(0x0600, 0xEA)] }
  expected := { pc := some 0x0601, s := some 0xFD, a := some 0x04, x := some 0x01, y := some 0x02,
                p := some 0x04, ram := [(0x0600, 0xEA), (0x0700, 0x00)] }
  accesses := [⟨0x0600, 0xEA, "read"⟩, ⟨0x0601, 0x00, "read"⟩, ⟨0x0602, 0x00, "read"⟩]

/-- It starts from the processor that its first state describes. -/
theorem start_waiting : waiting.start = Cpu.ofSnapshot
    ⟨0x0600, 0x04, 0x01, 0x02, 0xFD, 0x24, .sparse (.ofList [(0x0600, 0xEA)])⟩ :=
  start_of_validate rfl

/-- Its step does nothing but go on, in two cycles. -/
theorem after_waiting : waiting.after.result = .ok .proceed ∧
    waiting.after.cpu = { waiting.start with
      pc := 0x0601, last := some ⟨.single 0xEA .nop .implied 2, 0x0600, 0⟩, totalCycles := 2 } := by
  have hopcode : waiting.start.opcode = 0xEA := by
    rw [start_waiting]
    exact MemoryView.read_toMemory _ 0x0600
  have hd : waiting.start.descriptor? = some (.single 0xEA .nop .implied 2) := by
    rw [Cpu.descriptor?_eq_find?, hopcode]
    decide +kernel
  have hpc : waiting.start.pc = 0x0600 := by rw [start_waiting]; rfl
  have htotal : waiting.start.totalCycles = 0 := by rw [start_waiting]; rfl
  obtain ⟨o, -, hnext, hstep⟩ := Cpu.step_standard
    (by rw [start_waiting]; rfl) (by rw [start_waiting]; rfl) hd
  rw [hpc] at hnext
  refine ⟨congrArg StepOutcome.result hstep, ?_⟩
  calc waiting.after.cpu
    _ = waiting.start.executed (.single 0xEA .nop .implied 2) .idle o :=
        congrArg StepOutcome.cpu hstep
    _ = { waiting.start with
          pc := o.next, last := some ⟨.single 0xEA .nop .implied 2, waiting.start.pc, 0⟩
          totalCycles := waiting.start.totalCycles + 2 } := by
        rw [Cpu.executed_eq]
        rfl
    _ = _ := by rw [hnext, hpc, htotal]; rfl

/-- It conforms, since bit 5 does not matter and a zero in memory need not be listed. -/
theorem conforms_waiting : waiting.expected.Conforms waiting.after.cpu := by
  rw [after_waiting.2, start_waiting]
  refine ⟨rfl, rfl, rfl, rfl, rfl, ⟨0x04, rfl, by decide⟩, ?_⟩
  intro address value hlisted
  obtain ⟨entry, hentry, rfl⟩ := Option.map_eq_some_iff.mp hlisted
  obtain ⟨hmem, haddress⟩ := List.mem_filter.mp (List.mem_of_getLast? hentry)
  have haddress := of_decide_eq_true haddress
  change ((MemoryView.sparse (.ofList [(0x0600, 0xEA)])).toMemory.read address).toNat = entry.2
  rw [MemoryView.read_toMemory]
  rcases List.mem_pair.mp hmem with rfl | rfl
  · obtain rfl : address = 0x0600 := UInt16.toNat_inj.mp haddress.symm
    rfl
  · obtain rfl : address = 0x0700 := UInt16.toNat_inj.mp haddress.symm
    rfl

end Case

end Core65C02.Conformance
