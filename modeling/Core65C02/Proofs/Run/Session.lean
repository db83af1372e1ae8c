import Core65C02.Proofs.Run.Messages

/-!
# Sessions

In a session a controller is asked to run, is set up anew, and its processor and memory are used
directly. What is said goes to the sink that the processor has at that time, and it can get another
one. Sinks are kept apart from the controller here, since they outlive their use and can be used
again. The main statement is that the filters of the sinks decide which messages are kept and
nothing else, so what one of them keeps is what a sink that admits everything keeps, less what the
filter excludes.
-/

namespace Core65C02

/-- What can be asked for in a session. Unlike a call that edits the processor together with its
sink, nothing of it looks at what a sink keeps. -/
inductive Request
  /-- The program is run until it has ended. -/
  | runUntilFinish
  /-- The program is run for a number of steps. -/
  | runFor (limit : Nat)
  /-- Single-step mode is turned on or off. -/
  | setSingleStep (on : Bool)
  /-- Runs are paced from now on, or not any more. -/
  | setClockHz (hz : Option Nat)
  /-- Counters are kept from now on, or not any more. -/
  | setMetrics (metrics : Option Metrics)
  /-- The processor gets a new controller that takes commands from another source. -/
  | renew (source : CommandSource)
  /-- An operation of the processor or its memory: what it makes of the processor and what
  instructions report on the way. -/
  | operate (operation : Cpu → Cpu × List String)
  /-- The processor gets another sink. -/
  | listen (sink : Nat)

namespace Request

/-- A step of the processor that is not part of a run. -/
def step : Request := .operate fun c => (c.step.cpu, c.step.report)

/-- The bound of the run that is asked for, if it is a run. -/
def limit? : Request → Option Nat
  | runUntilFinish => some Controller.stepBound
  | runFor limit => some limit
  | _ => none

/-- The controller after a request. -/
def perform (k : Controller) : Request → Controller
  | runUntilFinish => k.runUntilFinish.1
  | runFor limit => (k.runFor limit).1
  | setSingleStep on => { k with singleStep := on }
  | setClockHz hz => k.withClockHz hz
  | setMetrics metrics => { k with metrics }
  | renew source => { cpu := k.cpu, source, log := k.log }
  | operate operation =>
    { k with
      cpu := (operation k.cpu).1
      log := Controller.keepReport k.log (operation k.cpu).2 }
  | listen _ => k

/-- The sink that is in use after a request. -/
def sink (current : Nat) : Request → Nat
  | listen sink => sink
  | _ => current

/-- The messages of a request. -/
def messages (k : Controller) : Request → List Message
  | runUntilFinish => k.runMessages Controller.stepBound
  | runFor limit => k.runMessages limit
  | operate operation => (operation k.cpu).2.map fun text => ⟨.info, text⟩
  | _ => []

/-- The processor before each step that a run of a request attempts. -/
def attempts (k : Controller) (request : Request) : List Cpu :=
  (request.limit?.elim [] k.resumed.course).map Controller.cpu

/-- A request leads to the same with another sink, and the sink gets what is said. -/
theorem perform_withLog (request : Request) (k : Controller) (log : Capture) :
    request.perform (k.withLog log) =
      (request.perform k).withLog (log.addAll (request.messages k)) := by
  cases request with
  | runUntilFinish => exact congrArg Prod.fst (k.runFor_withLog log Controller.stepBound)
  | runFor limit => exact congrArg Prod.fst (k.runFor_withLog log limit)
  | operate operation =>
    rw [messages, ← Controller.keepReport_eq_addAll]
    rfl
  | _ => rfl

/-- A request makes one trace of each step that a run of it attempts. -/
theorem traces_messages (request : Request) (k : Controller) :
    traces (request.messages k) =
      (request.attempts k).map fun c => ⟨.trace, Controller.traceLine c⟩ := by
  cases request with
  | runUntilFinish => rw [messages, Controller.traces_runMessages, attempts, List.map_map]; rfl
  | runFor limit => rw [messages, Controller.traces_runMessages, attempts, List.map_map]; rfl
  | operate operation => exact traces_report (operation k.cpu).2
  | _ => rfl

end Request

/-- A controller with the sinks that its processor can have. -/
structure Session where
  /-- The controller. Its own sink is not used. -/
  controller : Controller
  /-- The sinks. -/
  sinks : Nat → Capture := fun _ => {}
  /-- Which of them is in use. -/
  current : Nat := 0

namespace Session

/-- The session after a request, during which the controller has the sink in use. -/
def perform (s : Session) (request : Request) : Session :=
  let k := request.perform (s.controller.withLog (s.sinks s.current))
  { controller := k.withLog {}
    sinks := fun i => if i = s.current then k.log else s.sinks i
    current := request.sink s.current }

/-- The session after requests made one after another. -/
def performAll (s : Session) (requests : List Request) : Session := requests.foldl perform s

/-- The processor before each step that the runs of requests attempt while a sink is in use. -/
def attempts : Session → List Request → (sink : Nat) → List Cpu
  | _, [], _ => []
  | s, request :: requests, sink =>
    (if sink = s.current then request.attempts s.controller else []) ++
      (s.perform request).attempts requests sink

/-- The session with other filters of its sinks. -/
def withFilters (s : Session) (filters : Nat → Filter) : Session :=
  { s with sinks := fun i => { s.sinks i with filter := filters i } }

/-- The messages of a request that a sink gets. -/
def heard (s : Session) (request : Request) (sink : Nat) : List Message :=
  if sink = s.current then request.messages s.controller else []

/-- The sink in use hears one trace of each step that a run attempts, and the others hear none. -/
theorem traces_heard (s : Session) (request : Request) (sink : Nat) :
    traces (s.heard request sink) =
      (if sink = s.current then request.attempts s.controller else []).map fun c =>
        ⟨.trace, Controller.traceLine c⟩ := by
  unfold heard
  split
  · exact request.traces_messages s.controller
  · rfl

/-- What a request does but for what sinks hear does not depend on the sinks. -/
theorem perform_eq (s : Session) (request : Request) :
    s.perform request =
      { controller := (request.perform s.controller).withLog {}
        sinks := fun i => (s.sinks i).addAll (s.heard request i)
        current := request.sink s.current } := by
  have hsinks (i : Nat) : (if i = s.current then
      (s.sinks s.current).addAll (request.messages s.controller) else s.sinks i) =
      (s.sinks i).addAll (s.heard request i) := by
    unfold heard
    by_cases hi : i = s.current
    · rw [if_pos hi, if_pos hi, hi]
    · rw [if_neg hi, if_neg hi]
      rfl
  unfold perform
  rw [request.perform_withLog]
  exact congrArg (fun sinks => Session.mk _ sinks _) (funext hsinks)

/-- Messages that sinks hear during requests, whichever sinks they are. -/
structure Hears (s : Session) (requests : List Request) (heard : Nat → List Message) : Prop where
  /-- With other sinks the requests lead to the same, and the sinks get the messages. -/
  performAll_eq : ∀ sinks, { s with sinks }.performAll requests =
    { s.performAll requests with sinks := fun i => (sinks i).addAll (heard i) }
  /-- There is one trace of each step that a run attempts. -/
  traces_eq : ∀ i, traces (heard i) =
    (s.attempts requests i).map fun c => ⟨.trace, Controller.traceLine c⟩

/-- Without requests nothing is heard. -/
theorem hears_nil (s : Session) : s.Hears [] fun _ => [] where
  performAll_eq := fun _ => rfl
  traces_eq := fun _ => rfl

/-- What is heard during the first request comes before what is heard later. -/
theorem Hears.cons {s : Session} {request : Request} {requests : List Request}
    {later : Nat → List Message} (h : (s.perform request).Hears requests later) :
    s.Hears (request :: requests) fun i => s.heard request i ++ later i where
  performAll_eq := by
    intro sinks
    calc { s with sinks }.performAll (request :: requests)
      _ = ({ s with sinks }.perform request).performAll requests := rfl
      _ = { s.perform request with
            sinks := fun i => (sinks i).addAll (s.heard request i) }.performAll requests := by
          rw [perform_eq, perform_eq]
          rfl
      _ = { s.performAll (request :: requests) with
            sinks := fun i => (sinks i).addAll (s.heard request i ++ later i) } := by
          rw [h.performAll_eq]
          simp only [Capture.addAll_append]
          rfl
  traces_eq := by
    intro i
    rw [traces_append, traces_heard, h.traces_eq, attempts, List.map_append]

/-- Whatever is asked for, there are messages that are heard. -/
theorem exists_hears (s : Session) (requests : List Request) : ∃ heard, s.Hears requests heard := by
  induction requests generalizing s with
  | nil => exact ⟨_, s.hears_nil⟩
  | cons request requests ih =>
    obtain ⟨later, hlater⟩ := ih (s.perform request)
    exact ⟨_, hlater.cons⟩

section Filters

variable {s : Session} {requests : List Request} {heard : Nat → List Message}

/-- With other filters the sinks get the same messages, and nothing else changes. -/
theorem Hears.performAll_withFilters (h : s.Hears requests heard) (filters : Nat → Filter) :
    (s.withFilters filters).performAll requests =
      { s.performAll requests with
        sinks := fun i => { s.sinks i with filter := filters i }.addAll (heard i) } :=
  h.performAll_eq fun i => { s.sinks i with filter := filters i }

/-- With other filters the controller and the choice of the sink are the same. -/
theorem Hears.controller_and_current (h : s.Hears requests heard) (filters : Nat → Filter) :
    ((s.withFilters filters).performAll requests).controller = (s.performAll requests).controller ∧
      ((s.withFilters filters).performAll requests).current = (s.performAll requests).current := by
  rw [h.performAll_withFilters]
  exact ⟨rfl, rfl⟩

/-- A sink with another filter keeps what this filter lets through. -/
theorem Hears.messages_eq (h : s.Hears requests heard) (filters : Nat → Filter) (i : Nat) :
    (((s.withFilters filters).performAll requests).sinks i).messages.toList =
      (s.sinks i).messages.toList ++ (filters i).kept (heard i) := by
  rw [h.performAll_withFilters]
  exact Capture.toList_messages_addAll _ _

/-- A sink that admits everything keeps everything. -/
theorem Hears.messages_eq_full (h : s.Hears requests heard) (i : Nat) :
    (((s.withFilters fun _ => .upTo .trace).performAll requests).sinks i).messages.toList =
      (s.sinks i).messages.toList ++ heard i := by
  rw [h.messages_eq, Filter.kept_upTo_trace]

end Filters

/-- The filters of sinks decide which messages are kept and nothing else. Whatever is asked for in a
session, and whichever sinks are in use meanwhile, the controller comes out the same, and there are
messages for each sink such that behind what it kept before, a sink that admits everything keeps all
of them. A sink with another filter keeps none if the filter is off and those of which the level is
at most that of the filter otherwise, in the same order. The traces among them are one line for each
step that a run attempts, and the line was made from the processor before that step: it holds PC,
the opcode there, the mnemonic in its row or `???` if it has none, and the registers. -/
theorem performAll_captures (s : Session) (requests : List Request) (filters : Nat → Filter) :
    let full := (s.withFilters fun _ => .upTo .trace).performAll requests
    let kept := (s.withFilters filters).performAll requests
    kept.controller = full.controller ∧ kept.current = full.current ∧
    (∃ heard : Nat → List Message, ∀ i,
      (full.sinks i).messages.toList = (s.sinks i).messages.toList ++ heard i ∧
      (kept.sinks i).messages.toList =
        (s.sinks i).messages.toList ++ (filters i).kept (heard i) ∧
      traces (heard i) =
        (s.attempts requests i).map fun c => ⟨.trace, Controller.traceLine c⟩) ∧
    (∀ c : Cpu, ∃ name, IsCalled c.opcode name ∧
      Controller.traceLine c = Hex.address c.pc ++ "  " ++ Hex.byte c.opcode ++ "  " ++ name ++
        String.ofList (List.replicate (4 - name.length) ' ') ++ " " ++ c.registerSummary) ∧
    ∀ c c' : Cpu, Controller.traceLine c = Controller.traceLine c' →
      c.pc = c'.pc ∧ c.opcode = c'.opcode ∧ c.a = c'.a ∧ c.x = c'.x ∧ c.y = c'.y ∧ c.s = c'.s ∧
        c.status = c'.status := by
  intro full kept
  obtain ⟨heard, hheard⟩ := s.exists_hears requests
  obtain ⟨hcontroller, hcurrent⟩ := hheard.controller_and_current filters
  obtain ⟨hcontroller', hcurrent'⟩ := hheard.controller_and_current fun _ => .upTo .trace
  refine ⟨?_, ?_, ⟨heard, fun i => ⟨?_, ?_, ?_⟩⟩, Controller.exists_traceLine_eq, ?_⟩
  · exact hcontroller.trans hcontroller'.symm
  · exact hcurrent.trans hcurrent'.symm
  · exact hheard.messages_eq_full i
  · exact hheard.messages_eq filters i
  · exact hheard.traces_eq i
  · intro c c' hline
    exact Controller.traceLine_inj hline

/-- A session in which the first instruction ends the program. -/
def aboutToEnd : Session where
  controller := { cpu := {} }

/-- In a run the instruction is traced, and then the end is reported. -/
theorem heard_aboutToEnd : aboutToEnd.heard (.runFor 1) 0 =
    [⟨.trace, Controller.traceLine {}⟩, ⟨.info, "Finished after 1 steps"⟩] := by
  have hresult : aboutToEnd.controller.cpu.step.result = .ok .finished := Cpu.step_zeros.1
  have hreport : aboutToEnd.controller.cpu.step.report = [] := Cpu.step_zeros.2
  have hcourse : aboutToEnd.controller.resumed.course 1 = [aboutToEnd.controller] :=
    ((aboutToEnd.controller.runs_resumed 1).of_ending Nat.one_pos rfl hresult).1
  rw [heard, if_pos (show 0 = aboutToEnd.current from rfl), Request.messages,
    Controller.runMessages, hcourse, Controller.courseMessages, List.flatMap_singleton,
    Controller.turnMessages, hresult, Controller.stepMessages, hreport]
  rfl

/-- The instruction is called `BRK`. -/
theorem isCalled_aboutToEnd {name : String} (h : IsCalled ({} : Cpu).opcode name) :
    "BRK" = name := by
  have hrows : ∀ d ∈ standardRows, d.opcode = ({} : Cpu).opcode → "BRK" = d.mnemonic.name := by
    decide +kernel
  cases h with
  | row hd hopcode => exact hrows _ hd hopcode
  | unlisted hnone =>
    exact absurd rfl (hnone (.single 0x00 .brk .implied 7) (by decide +kernel))

/-- A sink for information drops the trace of the instruction and keeps the report of the end. -/
theorem performAll_captures_aboutToEnd :
    let full := (aboutToEnd.withFilters fun _ => .upTo .trace).performAll [.runFor 1]
    let kept := (aboutToEnd.withFilters fun _ => .upTo .info).performAll [.runFor 1]
    (full.sinks 0).messages.toList =
        [⟨.trace, "0000  00  BRK  PC=0000 A=00 X=00 Y=00 S=FF P=00"⟩,
          ⟨.info, "Finished after 1 steps"⟩] ∧
      (kept.sinks 0).messages.toList = [⟨.info, "Finished after 1 steps"⟩] := by
  intro full kept
  obtain ⟨-, -, ⟨heard, hheard⟩, hlines, -⟩ :=
    aboutToEnd.performAll_captures [.runFor 1] fun _ => .upTo .info
  obtain ⟨hfull, hkept, -⟩ := hheard 0
  have hline : Controller.traceLine {} = "0000  00  BRK  PC=0000 A=00 X=00 Y=00 S=FF P=00" := by
    obtain ⟨name, hname, hline⟩ := hlines {}
    obtain rfl := isCalled_aboutToEnd hname
    rw [hline]
    decide +kernel
  have hall : (full.sinks 0).messages.toList =
      [⟨.trace, Controller.traceLine {}⟩, ⟨.info, "Finished after 1 steps"⟩] := by
    have hhears := (aboutToEnd.perform (.runFor 1)).hears_nil.cons
    rw [hhears.messages_eq_full, heard_aboutToEnd]
    rfl
  have hempty : (aboutToEnd.sinks 0).messages.toList = [] := rfl
  rw [hempty, List.nil_append] at hfull hkept
  rw [hall, hkept, ← hfull, hall, hline]
  exact ⟨rfl, rfl⟩

end Session

end Core65C02
