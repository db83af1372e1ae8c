import Core65C02.Proofs.Hexadecimal
import Core65C02.Proofs.Run.Pause
import Core65C02.Proofs.Snapshot
import Core65C02.Proofs.Standard

/-!
# What a run says

Messages come from the loop of a run, from its pauses and from instructions. Here it is said which
they are, apart from any sink: a turn says the same whatever the sink keeps of it, and goes the same
way. The main statements are that this carries over to runs, that among the messages of a run there
is one trace of each step that it attempts, and what this trace holds. Which messages a filter lets
through is stated by the order of the levels.
-/

namespace Core65C02

/-- A level is at most another one if it does not stand behind it among the levels, of which the
gravest is the first. -/
instance leLevel : LE Level := ⟨fun level max => Level.all.idxOf level ≤ Level.all.idxOf max⟩

instance decidableLELevel : DecidableLE Level := fun level max =>
  inferInstanceAs (Decidable (Level.all.idxOf level ≤ Level.all.idxOf max))

namespace Filter

/-- The messages that a filter lets through: none if it is off, and otherwise those of which the
level is at most its own, in their order. -/
def kept : Filter → List Message → List Message
  | off, _ => []
  | upTo max, ms => ms.filter fun m => m.level ≤ max

/-- A filter is up to a level if it admits this level and those that are graver. -/
theorem admits_upTo (max level : Level) : (upTo max).admits level = decide (level ≤ max) := by
  cases max <;> cases level <;> rfl

/-- A filter lets through the messages that it admits. -/
theorem kept_eq_filter (filter : Filter) (ms : List Message) :
    filter.kept ms = ms.filter fun m => filter.admits m.level := by
  cases filter with
  | off => exact (List.filter_false ms).symm
  | upTo max => simp only [kept, admits_upTo]

/-- A filter that is up to traces lets everything through. -/
theorem kept_upTo_trace (ms : List Message) : (upTo .trace).kept ms = ms := by
  have hall (level : Level) : level ≤ .trace := by cases level <;> decide
  simp only [kept, hall, decide_true, List.filter_true]

end Filter

namespace Capture

/-- A sink keeps what its filter lets through of the messages that it gets, in their order. -/
theorem toList_messages_addAll (log : Capture) (ms : List Message) :
    (log.addAll ms).messages.toList = log.messages.toList ++ log.filter.kept ms := by
  rw [Filter.kept_eq_filter]
  induction ms generalizing log with
  | nil => simp [addAll]
  | cons m ms ih =>
    rw [addAll_cons, ih, add]
    by_cases hadmits : log.filter.admits m.level = true
    · simp [hadmits]
    · simp [hadmits]

end Capture

/-- The traces among messages. -/
def traces (ms : List Message) : List Message := ms.filter fun m => m.level == .trace

/-- The traces of what is said first come first. -/
theorem traces_append (ms ms' : List Message) : traces (ms ++ ms') = traces ms ++ traces ms' :=
  List.filter_append ..

/-- There are no traces where no message is at their level. -/
theorem traces_eq_nil {ms : List Message} (h : ∀ m ∈ ms, m.level ≠ .trace) : traces ms = [] := by
  rw [traces, List.filter_eq_nil_iff]
  intro m hm
  simpa using h m hm

/-- What instructions report is no trace. -/
theorem traces_report (report : List String) :
    traces (report.map fun text => ⟨.info, text⟩) = [] := by
  apply traces_eq_nil
  intro m hm
  obtain ⟨text, -, rfl⟩ := List.mem_map.mp hm
  simp

/-- A pause makes no traces. -/
theorem level_of_mem_attend {summary : String} {pending : List (Option String)} {served : Nat}
    {m : Message} (hm : m ∈ (attend summary pending served).messages) : m.level ≠ .trace := by
  induction pending generalizing served with
  | nil => cases hm
  | cons line rest ih =>
    cases line with
    | none => cases hm
    | some line =>
      rw [attend] at hm
      cases hcommand : Command.parse? line with
      | none =>
        rw [hcommand] at hm
        rcases List.mem_cons.mp hm with rfl | hm
        · simp
        · exact ih hm
      | some command =>
        rw [hcommand] at hm
        cases command with
        | resume => cases hm
        | registers =>
          rcases List.mem_cons.mp hm with rfl | hm
          · simp
          · exact ih hm
        | step =>
          rw [List.mem_singleton.mp hm]
          decide

/-- A register summary says what is in the registers. -/
theorem Cpu.registerSummary_inj {c c' : Cpu} (h : c.registerSummary = c'.registerSummary) :
    c.pc = c'.pc ∧ c.a = c'.a ∧ c.x = c'.x ∧ c.y = c'.y ∧ c.s = c'.s ∧ c.status = c'.status := by
  -- by its equation, the text would be unfolded down to its characters
  delta registerSummary at h
  simp only [String.append_assoc, String.append_right_inj, Hex.address_append_inj,
    Hex.byte_append_inj, Hex.byte_inj] at h
  obtain ⟨hpc, ha, hx, hy, hs, hp⟩ := h
  refine ⟨hpc, ha, hx, hy, hs, ?_⟩
  rw [← StatusFlags.unpack_pack c.status, hp, StatusFlags.unpack_pack]

/-- A text in a column that it begins is followed by the blanks that are missing. -/
theorem Text.pad_left (fill : Char) (width : Nat) (s : String) :
    pad .left fill width s = s ++ String.ofList (List.replicate (width - s.length) fill) := by
  rw [← String.toList_inj, String.toList_append]
  simp [pad, Alignment.leading]

/-- What an opcode is called in a trace: by the mnemonic of its row, or by question marks if there is
no row for it. -/
inductive IsCalled (opcode : UInt8) : String → Prop
  /-- There is a row for the opcode. -/
  | row {d : Descriptor} (hd : d ∈ standardRows) (hopcode : d.opcode = opcode) :
    IsCalled opcode d.mnemonic.name
  /-- There is none. -/
  | unlisted (hnone : ∀ d ∈ standardRows, d.opcode ≠ opcode) : IsCalled opcode "???"

namespace Controller

/-- A trace holds PC, the opcode there, what this is called, in a column of four characters, and the
registers. -/
theorem exists_traceLine_eq (c : Cpu) : ∃ name, IsCalled c.opcode name ∧
    traceLine c = Hex.address c.pc ++ "  " ++ Hex.byte c.opcode ++ "  " ++ name ++
      String.ofList (List.replicate (4 - name.length) ' ') ++ " " ++ c.registerSummary := by
  cases hd : c.descriptor? with
  | some d =>
    have hget : OpcodeTable.standard.get? (c.memory.read c.pc) = some d := hd
    obtain ⟨hmem, hopcode⟩ := Cpu.descriptor?_mem hd
    refine ⟨d.mnemonic.name, .row hmem hopcode, ?_⟩
    simp only [traceLine, hget, Text.pad_left, String.append_assoc, Cpu.opcode]
  | none =>
    have hget : OpcodeTable.standard.get? (c.memory.read c.pc) = none := hd
    refine ⟨"???", .unlisted (Cpu.descriptor?_eq_none_iff.mp hd), ?_⟩
    simp only [traceLine, hget, Text.pad_left, String.append_assoc, Cpu.opcode]

/-- A trace says where the processor is, which opcode is there and what is in the registers. -/
theorem traceLine_inj {c c' : Cpu} (h : traceLine c = traceLine c') :
    c.pc = c'.pc ∧ c.opcode = c'.opcode ∧ c.a = c'.a ∧ c.x = c'.x ∧ c.y = c'.y ∧ c.s = c'.s ∧
      c.status = c'.status := by
  simp only [traceLine, String.append_assoc, String.append_right_inj, Hex.address_append_inj,
    Hex.byte_append_inj] at h
  obtain ⟨hpc, hopcode, h⟩ := h
  -- the same opcode has the same name, so what follows the name can be compared
  rw [hopcode, String.append_right_inj, String.append_right_inj] at h
  obtain ⟨-, hregisters⟩ := Cpu.registerSummary_inj h
  exact ⟨hpc, hopcode, hregisters⟩

/-- The controller with another sink. -/
def withLog (k : Controller) (log : Capture) : Controller := { k with log }

/-- What a pause says. -/
def attendedMessages (k : Controller) : List Message :=
  pauseNotice k.cpu :: (attend k.cpu.registerSummary k.source.pending k.source.served).messages

/-- What is said between a step that succeeds with `r` and the next one. -/
def settleMessages (k : Controller) (r : StepResult) : List Message :=
  ((k.pauseReason? r).elim [] fun _ => k.attendedMessages) ++ endMessages r k.steps

/-- What a turn says. -/
def turnMessages (k : Controller) : List Message :=
  match k.cpu.step.result with
  | .ok r => k.stepMessages ++ k.advanced.settleMessages r
  | .error _ => k.stepMessages

section WithLog

variable (k : Controller) (log : Capture)

/-- A pause is the same with another sink, and the sink gets what is said. -/
theorem pause_withLog :
    (k.withLog log).pause = k.pause.withLog (log.addAll k.attendedMessages) :=
  rfl

/-- The end of a run is the same with another sink, and the sink gets the notice of it. -/
theorem finish_if_withLog (r : StepResult) :
    (if r = .finished then (k.withLog log).finish else k.withLog log) =
      (if r = .finished then k.finish else k).withLog (log.addAll (endMessages r k.steps)) := by
  cases r <;> rfl

/-- What follows a step is the same with another sink, and the sink gets what is said. -/
theorem settle_withLog (r : StepResult) :
    (k.withLog log).settle r = (k.settle r).withLog (log.addAll (k.settleMessages r)) := by
  have hreason : (k.withLog log).pauseReason? r = k.pauseReason? r := rfl
  rw [settle_eq, settle_eq, hreason, settleMessages, Capture.addAll_append]
  cases k.pauseReason? r with
  | none => exact k.finish_if_withLog log r
  | some reason => exact (k.pauseFor reason).finish_if_withLog (log.addAll k.attendedMessages) r

/-- Pacing has nothing to do with the sink. -/
theorem pace_withLog : (k.withLog log).pace = k.pace.withLog log := by
  have hpaced : (k.withLog log).isPaced = k.isPaced := rfl
  unfold pace
  rw [hpaced]
  split <;> rfl

/-- An attempt of a step is the same with another sink, and the sink gets its trace and what is
reported. -/
theorem attempted_withLog :
    (k.withLog log).attempted = k.attempted.withLog (log.addAll k.stepMessages) := by
  have hlog : (k.withLog log).attempted.log = log.addAll k.stepMessages := log_attempted _
  calc (k.withLog log).attempted
    _ = { (k.withLog log).pace with
          cpu := k.cpu.step.cpu, log := (k.withLog log).attempted.log } := rfl
    _ = k.attempted.withLog (log.addAll k.stepMessages) := by rw [hlog, pace_withLog]; rfl

/-- An advance is the same with another sink, and the sink gets what the attempt says. -/
theorem advanced_withLog :
    (k.withLog log).advanced = k.advanced.withLog (log.addAll k.stepMessages) := by
  calc (k.withLog log).advanced
    _ = { (k.withLog log).attempted with
          steps := k.steps + 1, metrics := tally k.metrics k.cpu.pc k.cpu.step.cpu.last } := rfl
    _ = k.advanced.withLog (log.addAll k.stepMessages) := by rw [attempted_withLog]; rfl

/-- A turn is the same with another sink, and the sink gets what is said. -/
theorem turn_withLog : (k.withLog log).turn = k.turn.withLog (log.addAll k.turnMessages) := by
  cases hresult : k.cpu.step.result with
  | ok r =>
    have hresult' : (k.withLog log).cpu.step.result = .ok r := hresult
    rw [turn_of_ok hresult', turn_of_ok hresult, advanced_withLog, settle_withLog, pace_withLog,
      turnMessages, hresult, Capture.addAll_append]
  | error fault =>
    have hfault' : (k.withLog log).cpu.step.result = .error fault := hresult
    rw [turn_of_error hfault', turn_of_error hresult, attempted_withLog, turnMessages, hresult]

end WithLog

/-- A step makes one trace. -/
theorem traces_stepMessages (k : Controller) :
    traces k.stepMessages = [⟨.trace, traceLine k.cpu⟩] :=
  congrArg (List.cons _) (traces_report k.cpu.step.report)

/-- A pause makes no traces, with its notice included. -/
theorem traces_attendedMessages (k : Controller) : traces k.attendedMessages = [] := by
  apply traces_eq_nil
  intro m hm
  rcases List.mem_cons.mp hm with rfl | hm
  · simp [pauseNotice]
  · exact level_of_mem_attend hm

/-- What follows a step makes no traces. -/
theorem traces_settleMessages (k : Controller) (r : StepResult) :
    traces (k.settleMessages r) = [] := by
  have hend : traces (endMessages r k.steps) = [] := by cases r <;> rfl
  rw [settleMessages, traces_append, hend, List.append_nil]
  cases k.pauseReason? r with
  | none => rfl
  | some reason => exact k.traces_attendedMessages

/-- A turn makes one trace, of the step that it attempts. -/
theorem traces_turnMessages (k : Controller) :
    traces k.turnMessages = [⟨.trace, traceLine k.cpu⟩] := by
  unfold turnMessages
  cases k.cpu.step.result with
  | ok r => rw [traces_append, traces_stepMessages, traces_settleMessages, List.append_nil]
  | error fault => exact k.traces_stepMessages

/-- The messages of the turns of a course. -/
def courseMessages (course : List Controller) : List Message := course.flatMap turnMessages

/-- The turns of a course make one trace each. -/
theorem traces_courseMessages (course : List Controller) :
    traces (courseMessages course) = course.map fun k => ⟨.trace, traceLine k.cpu⟩ := by
  induction course with
  | nil => rfl
  | cons k course ih =>
    rw [courseMessages, List.flatMap_cons, traces_append, traces_turnMessages]
    exact congrArg (List.cons _) ih

/-- The loop goes the same way with another sink, and the sink gets what is said. -/
theorem Runs.loop_withLog {limit : Nat} {k : Controller} {course : List Controller}
    {out : Controller × Except Fault RunOutcome} (h : Runs limit k course out) (log : Capture) :
    (k.withLog log).loop limit = (out.1.withLog (log.addAll (courseMessages course)), out.2) := by
  induction h generalizing log with
  | @finished limit k hfinished =>
    exact (k.withLog log).loop_of_finished hfinished limit
  | @atLimit k hrunning =>
    have hrunning' : (k.withLog log).state = .running := hrunning
    rw [loop, hrunning', if_neg (by decide)]
    rfl
  | @failed limit k hrunning fault hfault =>
    have hrunning' : (k.withLog log).state = .running := hrunning
    have hfault' : (k.withLog log).cpu.step.result = .error fault := hfault
    rw [loop_of_error hrunning' (pace_stepOnce_of_error hfault'), ← turn_of_error hfault',
      turn_withLog, courseMessages, List.flatMap_singleton]
  | @turn limit k hrunning r hresult later out _ ih =>
    have hrunning' : (k.withLog log).state = .running := hrunning
    have hresult' : (k.withLog log).cpu.step.result = .ok r := hresult
    rw [loop_of_ok hrunning' (pace_stepOnce_of_ok hresult'), ← turn_of_ok hresult', turn_withLog,
      ih, courseMessages, courseMessages, List.flatMap_cons, Capture.addAll_append]

/-- The controller from which a run makes its turns. A run that was left paused resumes first. -/
def resumed (k : Controller) : Controller := if k.state = .paused then k.pause else k

/-- The messages of a run. -/
def runMessages (k : Controller) (limit : Nat) : List Message :=
  (if k.state = .paused then k.attendedMessages else []) ++ courseMessages (k.resumed.course limit)

/-- Every run goes one of the ways of a run from where it resumes. -/
theorem runs_resumed (k : Controller) (limit : Nat) :
    Runs limit k.resumed (k.resumed.course limit) (k.runFor limit) := by
  refine runs_loop ?_ limit
  by_cases hpaused : k.state = .paused
  · simp [resumed, hpaused, pause]
  · simp [resumed, hpaused]

/-- A run goes the same way with another sink, comes back with the same result, and the sink gets
what is said. -/
theorem runFor_withLog (k : Controller) (log : Capture) (limit : Nat) :
    (k.withLog log).runFor limit =
      ((k.runFor limit).1.withLog (log.addAll (k.runMessages limit)), (k.runFor limit).2) := by
  have hresumed : (k.withLog log).resumed =
      k.resumed.withLog (log.addAll (if k.state = .paused then k.attendedMessages else [])) := by
    unfold resumed
    by_cases hpaused : k.state = .paused
    · have hpaused' : (k.withLog log).state = .paused := hpaused
      rw [if_pos hpaused, if_pos hpaused, if_pos hpaused', pause_withLog]
    · have hpaused' : (k.withLog log).state ≠ .paused := hpaused
      rw [if_neg hpaused, if_neg hpaused, if_neg hpaused']
      rfl
  calc (k.withLog log).runFor limit
    _ = (k.withLog log).resumed.loop limit := rfl
    _ = _ := by
      rw [hresumed, (k.runs_resumed limit).loop_withLog, runMessages, Capture.addAll_append]

/-- A run makes one trace of each step that it attempts. -/
theorem traces_runMessages (k : Controller) (limit : Nat) :
    traces (k.runMessages limit) =
      (k.resumed.course limit).map fun turning => ⟨.trace, traceLine turning.cpu⟩ := by
  have hresume : traces (if k.state = .paused then k.attendedMessages else []) = [] := by
    split
    · exact k.traces_attendedMessages
    · rfl
  rw [runMessages, traces_append, hresume, List.nil_append, traces_courseMessages]

end Controller

end Core65C02
