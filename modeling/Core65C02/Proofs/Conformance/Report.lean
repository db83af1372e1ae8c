import Core65C02.Forms.Conformance
import Core65C02.Proofs.Conformance.Case

/-!
# What a file of cases comes to

The cases of a file are run in order, and their outcomes are added to a report one at a time. What a
report says of a list of outcomes is defined here by counting through the list, and adding an
outcome is shown to keep it true. The main statement is that the report of a file says it of the
outcomes of all its cases, in their order, and that the first case that cannot be run, if there is
one, ends the file with its error instead.
-/

namespace Core65C02.Conformance

namespace Outcome

/-- Both numbers of cycles are known, and they differ. -/
def Disagrees (o : Outcome) : Prop :=
  ∃ expected actual, o.expectedCycles = some expected ∧ o.actualCycles = some actual ∧
    expected ≠ actual

instance decidableDisagrees (o : Outcome) : Decidable o.Disagrees :=
  decidable_of_iff (o.cyclesMatch = false) cyclesMatch_eq_false_iff

/-- Cycles match unless both numbers are known and differ. -/
theorem cyclesMatch_eq_not_disagrees (o : Outcome) : o.cyclesMatch = !decide o.Disagrees := by
  by_cases hdisagrees : o.Disagrees
  · rw [cyclesMatch_eq_false_iff.mpr hdisagrees, decide_eq_true hdisagrees, Bool.not_true]
  · rw [decide_eq_false hdisagrees, Bool.not_false]
    exact Bool.eq_true_of_not_eq_false fun h => hdisagrees (cyclesMatch_eq_false_iff.mp h)

end Outcome

namespace Case

/-- What is wrong with a case in the first place. Its first state is looked at before the second. -/
def Malformed (test : Case) (e : StateError) : Prop :=
  test.initial.FirstFault e ∨ test.initial.Valid ∧ test.expected.FirstFault e

/-- Nothing is wrong with a case. -/
def WellFormed (test : Case) : Prop := ∀ e, ¬ test.Malformed e

/-- The step of a case succeeds, and it leads to the second state. -/
def Holds (test : Case) : Prop :=
  (∃ r, test.after.result = .ok r) ∧ test.expected.Conforms test.after.cpu

/-- The accesses of a case are known, its step succeeds, and it takes another number of cycles. -/
def Miscounts (test : Case) : Prop :=
  test.accesses ≠ [] ∧ ∃ r i, test.after.result = .ok r ∧ test.after.cpu.last = some i ∧
    test.accesses.length ≠ i.cycles

/-- An outcome is the one of a case. -/
structure Yields (test : Case) (o : Outcome) : Prop where
  /-- Running the case gives the outcome. -/
  run : test.run = .ok o
  /-- The outcome passes if the case holds. -/
  passed : o.passed = true ↔ test.Holds
  /-- Its numbers of cycles differ if those of the case do. -/
  disagrees : test.accesses.length < 1 <<< 32 → (o.Disagrees ↔ test.Miscounts)

variable {test : Case}

/-- A case with which nothing is wrong has two valid states. -/
theorem WellFormed.valid (h : test.WellFormed) : test.initial.Valid ∧ test.expected.Valid := by
  cases hrun : test.run with
  | error e => exact absurd (run_eq_error_iff.mp hrun) (h e)
  | ok o =>
    unfold run at hrun
    cases hinitial : test.initial.validate with
    | error e => rw [hinitial] at hrun; cases hrun
    | ok initial =>
      cases hexpected : test.expected.validate with
      | error e => rw [hinitial, hexpected] at hrun; cases hrun
      | ok expected =>
        exact ⟨RawState.exists_validate_iff.mp ⟨_, hinitial⟩,
          RawState.exists_validate_iff.mp ⟨_, hexpected⟩⟩

/-- A case with which nothing is wrong is run. -/
theorem exists_yields (htest : test.WellFormed) : ∃ o, test.Yields o := by
  obtain ⟨hinitial, hexpected⟩ := htest.valid
  cases hstep : test.after.result with
  | ok r =>
    obtain ⟨o, hrun, -, -, -, hcounted, hactual, hpassed⟩ := run_of_ok hinitial hexpected hstep
    refine ⟨o, hrun, hpassed.trans ⟨fun h => ⟨⟨r, hstep⟩, h⟩, fun h => h.2⟩, fun hlength => ?_⟩
    unfold Outcome.Disagrees Miscounts
    simp only [hcounted, hactual, accessCount?_eq_some_iff hlength, Option.map_eq_some_iff]
    constructor
    · rintro ⟨_, _, ⟨hknown, rfl⟩, ⟨i, hlast, rfl⟩, hne⟩
      exact ⟨hknown, r, i, hstep, hlast, hne⟩
    · rintro ⟨hknown, _, i, -, hlast, hne⟩
      exact ⟨_, _, ⟨hknown, rfl⟩, ⟨i, hlast, rfl⟩, hne⟩
  | error fault =>
    have hfails {r : StepResult} : test.after.result ≠ .ok r := by simp [hstep]
    refine ⟨_, run_of_error hinitial hexpected hstep, ⟨nofun, ?_⟩, fun _ => ⟨?_, ?_⟩⟩
    · rintro ⟨⟨r, hok⟩, -⟩
      exact absurd hok hfails
    · rintro ⟨_, _, -, hnone, -⟩
      cases hnone
    · rintro ⟨-, r, _, hok, -⟩
      exact absurd hok hfails

/-- A case is judged if it is well-formed. -/
theorem exists_run_iff : (∃ o, test.run = .ok o) ↔ test.WellFormed := by
  constructor
  · rintro ⟨o, hrun⟩ e hfault
    rw [run_eq_error_iff.mpr hfault] at hrun
    cases hrun
  · intro h
    obtain ⟨o, ho⟩ := exists_yields h
    exact ⟨o, ho.run⟩

/-- Cases that are well-formed have outcomes, one for each. -/
theorem exists_forall₂_yields {cases : List Case} (hcases : ∀ c ∈ cases, c.WellFormed) :
    ∃ outcomes, List.Forall₂ Yields cases outcomes := by
  induction cases with
  | nil => exact ⟨[], .nil⟩
  | cons c rest ih =>
    obtain ⟨hc, hrest⟩ := List.forall_mem_cons.mp hcases
    obtain ⟨o, ho⟩ := exists_yields hc
    obtain ⟨outcomes, houtcomes⟩ := ih hrest
    exact ⟨o :: outcomes, .cons ho houtcomes⟩

/-- The outcomes of cases all pass if the cases all hold. -/
theorem forall_passed_iff {cases : List Case} {outcomes : List Outcome}
    (h : List.Forall₂ Yields cases outcomes) :
    (∀ o ∈ outcomes, o.passed = true) ↔ ∀ c ∈ cases, c.Holds := by
  induction h with
  | nil => simp
  | cons hc _ ih => rw [List.forall_mem_cons, List.forall_mem_cons, hc.passed, ih]

end Case

namespace Report

/-- A report is the tally of a list of outcomes. -/
structure Tallies (r : Report) (outcomes : List Outcome) : Prop where
  /-- All outcomes are counted. -/
  total : r.total = outcomes.length
  /-- Those that passed are counted. -/
  passed : r.passed = outcomes.countP Outcome.passed
  /-- Those with different numbers of cycles are counted, whether they passed or not. -/
  cycleMismatches : r.cycleMismatches = outcomes.countP fun o => decide o.Disagrees
  /-- Those that did not pass are kept in order. -/
  failures : r.failures = outcomes.filter fun o => !o.passed

/-- A new report is the tally of no outcomes. -/
theorem tallies_nil (file : String) : Tallies { file } [] := ⟨rfl, rfl, rfl, rfl⟩

namespace Tallies

variable {r : Report} {outcomes : List Outcome}

/-- Adding an outcome to a report adds it to the end of the list. -/
theorem record (h : r.Tallies outcomes) (o : Outcome) :
    (r.record o).Tallies (outcomes ++ [o]) where
  total := by simp [Report.record, h.total]
  passed := by
    rw [List.countP_append, ← h.passed]
    cases hpassed : o.passed <;> simp [Report.record, hpassed]
  cycleMismatches := by
    rw [List.countP_append, ← h.cycleMismatches, Report.record, o.cyclesMatch_eq_not_disagrees]
    by_cases hdisagrees : o.Disagrees <;> simp [hdisagrees]
  failures := by
    rw [List.filter_append, ← h.failures]
    cases hpassed : o.passed <;> simp [Report.record, Report.failures, hpassed]

/-- The outcomes that passed and those that are kept are all there are. -/
theorem passed_add_length_failures (h : r.Tallies outcomes) :
    r.passed + r.failures.length = r.total := by
  rw [h.passed, h.failures, h.total, ← List.countP_eq_length_filter]
  simpa using (List.length_eq_countP_add_countP Outcome.passed (l := outcomes)).symm

/-- A report tells of success if all cases have passed. -/
theorem isSuccess_iff (h : r.Tallies outcomes) :
    r.isSuccess = true ↔ ∀ o ∈ outcomes, o.passed = true := by
  have htotal := h.passed_add_length_failures
  have hempty : r.isSuccess = true ↔ r.failures = [] := by
    rw [isSuccess, beq_iff_eq, failed, ← List.length_eq_zero_iff]
    omega
  rw [hempty, h.failures]
  simp [List.filter_eq_nil_iff]

end Tallies

variable {r : Report} {done outcomes : List Outcome} {cases : List Case} {e : StateError}

/-- Running cases adds their outcomes to a report, in the order of the cases. -/
theorem runCases_of_forall₂ (h : r.Tallies done)
    (hrun : List.Forall₂ (fun c o => Case.run c = .ok o) cases outcomes) :
    ∃ report, r.runCases cases = .ok report ∧ report.file = r.file ∧
      report.Tallies (done ++ outcomes) := by
  induction hrun generalizing r done with
  | nil => exact ⟨r, rfl, rfl, by rwa [List.append_nil]⟩
  | @cons c o rest outcomes hc _ ih =>
    obtain ⟨report, hreport, hfile, htallies⟩ := ih (h.record o)
    refine ⟨report, ?_, hfile, ?_⟩
    · rw [runCases, hc]
      exact hreport
    · rwa [List.append_assoc] at htallies

/-- The first case that cannot be run ends the others. -/
theorem runCases_eq_error_iff :
    r.runCases cases = .error e ↔ ∃ front test back, cases = front ++ test :: back ∧
      (∀ c ∈ front, ∃ o, c.run = .ok o) ∧ test.run = .error e := by
  induction cases generalizing r with
  | nil => simp [runCases]
  | cons c rest ih =>
    cases hc : c.run with
    | error why =>
      rw [runCases, hc]
      constructor
      · rintro h
        cases h
        exact ⟨[], c, rest, rfl, List.forall_mem_nil _, hc⟩
      · rintro ⟨front, test, back, hcases, hfront, htest⟩
        cases front with
        | nil =>
          cases hcases
          rw [← hc, htest]
        | cons d front =>
          cases hcases
          obtain ⟨o, ho⟩ := hfront c List.mem_cons_self
          rw [ho] at hc
          cases hc
    | ok o =>
      rw [runCases, hc]
      refine ih.trans ⟨?_, ?_⟩
      · rintro ⟨front, test, back, rfl, hfront, htest⟩
        exact ⟨c :: front, test, back, rfl, List.forall_mem_cons.mpr ⟨⟨o, hc⟩, hfront⟩, htest⟩
      · rintro ⟨front, test, back, hcases, hfront, htest⟩
        cases front with
        | nil =>
          cases hcases
          rw [htest] at hc
          cases hc
        | cons d front =>
          cases hcases
          exact ⟨front, test, back, rfl, (List.forall_mem_cons.mp hfront).2, htest⟩

end Report

/-- The report of a file is the tally of its cases. A file that holds a list of cases is refused
exactly if one of them has a state that is not valid, with what is wrong with the first such case.
Otherwise it gets a report of the outcomes of all its cases in their order: how many there are, how
many passed, how many have different numbers of cycles, and those that did not pass as they come in
the file. So the cases that passed and those that are kept make up the total, the difference between
the total and the passed ones is the number that is kept, and the file is a success exactly if all
its cases hold. -/
theorem runFile_tallies (file : String) {content : Option (List UInt8)} {cases : List Case}
    (hcases : parseFile content = .ok cases) :
    (∀ e, runFile file content = .error e ↔
      ∃ front test back, cases = front ++ test :: back ∧ (∀ c ∈ front, c.WellFormed) ∧
        test.Malformed e) ∧
    ((∀ c ∈ cases, c.WellFormed) → ∃ report outcomes, runFile file content = .ok report ∧
      List.Forall₂ Case.Yields cases outcomes ∧ report.file = file ∧
      report.total = cases.length ∧ report.passed = outcomes.countP Outcome.passed ∧
      report.failures = outcomes.filter (fun o => !o.passed) ∧
      report.cycleMismatches = outcomes.countP (fun o => decide o.Disagrees) ∧
      report.passed + report.failures.length = report.total ∧ report.passed ≤ report.total ∧
      report.failed = report.failures.length ∧
      (report.isSuccess = true ↔ ∀ c ∈ cases, c.Holds)) := by
  have hfile : runFile file content = Report.runCases { file } cases := by
    rw [runFile, hcases]
    rfl
  rw [hfile]
  constructor
  · intro e
    rw [Report.runCases_eq_error_iff]
    simp only [Case.exists_run_iff, Case.run_eq_error_iff]
    rfl
  · intro hwell
    obtain ⟨outcomes, hyields⟩ := Case.exists_forall₂_yields hwell
    obtain ⟨report, hrun, hname, htallies⟩ :=
      Report.runCases_of_forall₂ (Report.tallies_nil file) (hyields.imp fun _ _ h => h.run)
    rw [List.nil_append] at htallies
    have htotal := htallies.passed_add_length_failures
    refine ⟨report, outcomes, hrun, hyields, hname, ?_, htallies.passed, htallies.failures,
      htallies.cycleMismatches, htotal, by omega, ?_, ?_⟩
    · rw [htallies.total, hyields.length_eq]
    · rw [Report.failed]
      omega
    · rw [htallies.isSuccess_iff]
      exact Case.forall_passed_iff hyields

/-- A file that is text holds the cases of the text. -/
theorem parseFile_toUTF8 {text : String} {cases : List Case}
    (htext : (Json.parse? text).bind (Json.list? Case.ofJson?) = some cases) :
    parseFile (some text.toUTF8.data.toList) = .ok cases := by
  have hread : String.fromUTF8? ⟨text.toUTF8.data.toList.toArray⟩ = some text :=
    dif_pos text.isValidUTF8
  unfold parseFile
  rw [Option.bind_some, hread]
  simp only [htext]

namespace Case

/-- A case that begins at a byte that is no opcode. -/
def lost : Case where
  name := "fc"
  initial := { pc := some 0, s := some 0, a := some 0, x := some 0, y := some 0, p := some 0,
               ram := [(0, 0xFC)] }
  expected := { pc := some 1, s := some 0, a := some 0, x := some 0, y := some 0, p := some 0 }

/-- Its step fails at that byte. -/
theorem after_lost : lost.after.result = .error (.unsupportedInstruction 0xFC 0) := by
  have hstart : lost.start = Cpu.ofSnapshot ⟨0, 0, 0, 0, 0, 0, .sparse (.ofList [(0, 0xFC)])⟩ :=
    start_of_validate rfl
  have hopcode : lost.start.opcode = 0xFC := by
    rw [hstart]
    exact MemoryView.read_toMemory _ 0
  have hd : lost.start.descriptor? = none := by
    rw [Cpu.descriptor?_eq_find?, hopcode]
    decide +kernel
  have hpc : lost.start.pc = 0 := by rw [hstart]; rfl
  have hstep := (Cpu.StepsTo.undefined (by rw [hstart]; rfl) hd).step_eq
  rw [after, hstep, hopcode, hpc]

/-- It is well-formed all the same. -/
theorem wellFormed_lost : lost.WellFormed := exists_run_iff.mp ⟨_, run_of_validate rfl rfl⟩

end Case

/-- A file with a case that passes although its cycles are miscounted, and one that does not. -/
def mixedFile : String :=
  "[[\"ea\",[1536,253,4,1,2,36,[[1536,234]]],[1537,253,4,1,2,4,[[1536,234],[1792,0]]]," ++
  "[[1536,234,\"read\"],[1537,0,\"read\"],[1538,0,\"read\"]]]," ++
  "[\"fc\",[0,0,0,0,0,0,[[0,252]]],[1,0,0,0,0,0]]]"

/-- A file with a case that does not pass, and one of which the first state has no status. -/
def maimedFile : String :=
  "[[\"fc\",[0,0,0,0,0,0,[[0,252]]],[1,0,0,0,0,0]],[\"\",[0,0,0,0,0],[]]]"

/-- The first file is run through, although a case does not pass. The second one is not, for the
part that is missing. -/
theorem runFile_tallies_mixed :
    (∃ report, runFile "ea.json" (some mixedFile.toUTF8.data.toList) = .ok report ∧
      report.total = 2 ∧ report.passed = 1 ∧ report.failed = 1 ∧ report.cycleMismatches = 1 ∧
      report.isSuccess = false) ∧
    runFile "fc.json" (some maimedFile.toUTF8.data.toList) = .error (.missingField "p") := by
  constructor
  · have hcases : parseFile (some mixedFile.toUTF8.data.toList) = .ok [.waiting, .lost] :=
      parseFile_toUTF8 (by decide +kernel)
    have hwaiting : Case.waiting.WellFormed :=
      Case.exists_run_iff.mp ⟨_, Case.run_of_validate rfl rfl⟩
    obtain ⟨report, outcomes, hrun, hyields, -, htotal, hpassed, -, hmismatches, hsum, -, hfailed,
      hsuccess⟩ := (runFile_tallies "ea.json" hcases).2 (by simp [hwaiting, Case.wellFormed_lost])
    obtain ⟨o, _, ho, hrest, rfl⟩ := List.forall₂_cons_left_iff.mp hyields
    obtain ⟨o', _, ho', hnil, rfl⟩ := List.forall₂_cons_left_iff.mp hrest
    cases hnil
    have hholds : Case.waiting.Holds := ⟨⟨_, Case.after_waiting.1⟩, Case.conforms_waiting⟩
    have hfails (r : StepResult) : Case.lost.after.result ≠ .ok r := by simp [Case.after_lost]
    have hbroken : ¬ Case.lost.Holds := fun ⟨⟨r, hok⟩, _⟩ => hfails r hok
    have hlast : Case.waiting.after.cpu.last = some ⟨.single 0xEA .nop .implied 2, 0x0600, 0⟩ := by
      rw [Case.after_waiting.2]
    have hdisagrees : o.Disagrees := (ho.disagrees (by decide)).mpr
      ⟨nofun, _, _, Case.after_waiting.1, hlast, by decide⟩
    have hagrees : ¬ o'.Disagrees := fun h =>
      let ⟨_, r, _, hok, _⟩ := (ho'.disagrees (by decide)).mp h
      hfails r hok
    have hone : report.passed = 1 := by
      simpa [ho.passed.mpr hholds, mt ho'.passed.mp hbroken] using hpassed
    change report.total = 2 at htotal
    refine ⟨report, hrun, htotal, hone, ?_, ?_, ?_⟩
    · rw [hfailed]
      omega
    · simpa [hdisagrees, hagrees] using hmismatches
    · refine Bool.eq_false_of_not_eq_true fun h => hbroken (hsuccess.mp h _ ?_)
      exact List.mem_pair.mpr (.inr rfl)
  · let maimed : Case :=
      ⟨"", { pc := some 0, s := some 0, a := some 0, x := some 0, y := some 0 }, {}, []⟩
    have hcases : parseFile (some maimedFile.toUTF8.data.toList) = .ok [.lost, maimed] :=
      parseFile_toUTF8 (by decide +kernel)
    refine ((runFile_tallies "fc.json" hcases).1 _).mpr ⟨[.lost], maimed, [], rfl, ?_, .inl ?_⟩
    · simp [Case.wellFormed_lost]
    · exact RawState.validate_eq_error_iff_firstFault.mp rfl

end Core65C02.Conformance
