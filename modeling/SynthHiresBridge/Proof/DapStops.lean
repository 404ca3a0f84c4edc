import SynthHiresBridge.Daemon.DapOps
import SynthHiresBridge.Data.Suffix

namespace Daemon.DapClient

open Json Transition

/-- A step reports a stop that came after its request was sent, and the thread of the run state is
the one of this stop. -/
structure Report.Own (report : Report) : Prop where
  later : report.sent ≤ report.found.number
  object : report.stopped = stoppedObject report.found.event
  thread : report.after.thread = (stoppedThread report.found.event).getD report.before.thread
  frame : report.after.frame = report.before.frame

theorem RunState.follow_thread (state : RunState) (event : Value) :
    (state.follow event).thread = (stoppedThread event).getD state.thread := by
  rw [follow]
  cases stoppedThread event <;> rfl

theorem RunState.follow_frame (state : RunState) (event : Value) :
    (state.follow event).frame = state.frame := by
  rw [follow]
  cases stoppedThread event <;> rfl

namespace Session

/-- The events since the last drain. -/
def arrive (session : Session) (arrived : List Received) : Action → List Received
  | .turn (.message message) =>
      if session.board.ended = false ∧ isEvent message then
        arrived ++ [⟨session.received, message⟩]
      else arrived
  | .drainEvents => []
  | _ => arrived

def arrivals (actions : List Action) : List Received :=
  annotate step arrive start [] actions

/-- The last events since the last drain, as many as a ring has room for. -/
def recent (actions : List Action) : List Received :=
  (arrivals actions).drop ((arrivals actions).length - eventRing)

theorem arrivals_concat (actions : List Action) (action : Action) :
    arrivals (actions ++ [action]) = arrive (after actions) (arrivals actions) action :=
  annotate_concat step arrive start [] actions action

/-- The ring has the last events since the last drain. -/
theorem events_eq (actions : List Action) : (after actions).events = recent actions := by
  induction actions using List.reverseRecOn with
  | nil => rfl
  | append_singleton actions action ih =>
      rw [after, run_concat, recent, arrivals_concat]
      cases action with
      | turn turn =>
          cases turn with
          | message message =>
              rw [step, noteTurn, routeEvent, arrive]
              split_ifs
              · dsimp only
                rw [ih, pushEvent, recent, Suffix.drop_concat (by decide), List.length_append,
                  List.length_singleton]
              · exact ih
          | written id =>
              rw [step, noteTurn, noteSent]
              split <;> exact ih
          | register | writeFailed | finish | timeout | endOfStream => exact ih
      | drainEvents => rfl
      | beginStep | setRunState => exact ih
      | proceed id =>
          rw [step, proceed]
          split <;> exact ih
      | giveUp id =>
          rw [step, giveUp]
          split <;> exact ih
      | look id =>
          rw [step, look]
          split
          · split <;> exact ih
          · exact ih

end Session

/-- What a phase says about the events so far. A step that has looked saw no stop, so that any stop
in the ring came later. -/
def StepPhase.Within (events : List Received) (received : Nat) : StepPhase → Prop
  | .unsent => True
  | .asked sent => sent ≤ received
  | .looking sent looked => sent ≤ received ∧ (looked = true →
      ∀ stop ∈ events, isStopped stop.event = true → sent ≤ stop.number)

theorem mem_pushEvent {events : List Received} {event received : Received}
    (member : received ∈ pushEvent events event) : received ∈ events ∨ received = event := by
  rw [pushEvent, List.mem_append, List.mem_singleton] at member
  rcases member with old | new
  · split_ifs at old
    · exact .inl (List.mem_of_mem_drop old)
    · exact .inl old
  · exact .inr new

theorem StepPhase.Within.push {events : List Received} {received : Nat} {phase : StepPhase}
    (within : phase.Within events received) (event : Value) :
    phase.Within (pushEvent events ⟨received, event⟩) (received + 1) := by
  cases phase with
  | unsent => trivial
  | asked sent => exact Nat.le_succ_of_le within
  | looking sent looked =>
      refine ⟨Nat.le_succ_of_le within.1, fun seen stop member stopped => ?_⟩
      rcases mem_pushEvent member with old | rfl
      · exact within.2 seen stop old stopped
      · exact within.1

namespace Session

/-- The events in the ring are in the order of their numbers. -/
structure Sound (session : Session) : Prop where
  numbered : ∀ received ∈ session.events, received.number < session.received
  ordered : session.events.Pairwise fun first second => first.number < second.number
  phases : ∀ id phase, session.steps id = some phase →
    phase.Within session.events session.received

namespace Sound

variable {session : Session}

theorem setStep (sound : Sound session) (id : Nat) {phase : Option StepPhase}
    (within : ∀ now, phase = some now → now.Within session.events session.received) :
    Sound (session.setStep id phase) := by
  refine ⟨sound.numbered, sound.ordered, fun other now running => ?_⟩
  change Function.update session.steps id phase other = some now at running
  by_cases same : other = id
  · rw [same, Function.update_self] at running
    exact within now running
  · rw [Function.update_of_ne same] at running
    exact sound.phases other now running

theorem routeEvent (sound : Sound session) (message : Value) : Sound (session.routeEvent message) := by
  rw [Session.routeEvent]
  split_ifs
  · refine ⟨fun received member => ?_, ?_, fun id phase running => ?_⟩
    · rcases mem_pushEvent member with old | rfl
      · exact Nat.lt_succ_of_lt (sound.numbered received old)
      · exact Nat.lt_succ_self _
    · have kept : (if session.events.length ≥ eventRing then session.events.drop 1
          else session.events).Sublist session.events := by
        split_ifs
        · exact List.drop_sublist 1 _
        · exact List.Sublist.refl _
      rw [pushEvent, List.pairwise_append]
      refine ⟨sound.ordered.sublist kept, List.pairwise_singleton _ _, ?_⟩
      intro first before second last
      rw [List.mem_singleton.mp last]
      exact sound.numbered first (kept.subset before)
    · exact (sound.phases id phase running).push message
  · exact sound

/-- The last stop of the ring is the newest one. -/
theorem lastStopped (sound : Sound session) {found : Received}
    (last : DapClient.lastStopped session.events = some found) :
    found ∈ session.events ∧ isStopped found.event = true ∧
      ∀ stop ∈ session.events, isStopped stop.event = true → stop.number ≤ found.number := by
  obtain ⟨stopped, newer, older, made, none⟩ := List.find?_eq_some_iff_append.mp last
  have whole : session.events = older.reverse ++ found :: newer.reverse := by
    rw [← List.reverse_reverse session.events, made]
    simp
  have ordered := sound.ordered
  rw [whole] at ordered ⊢
  refine ⟨by simp, stopped, fun stop member also => ?_⟩
  rcases List.mem_append.mp member with before | rest
  · exact Nat.le_of_lt ((List.pairwise_append.mp ordered).2.2 stop before found List.mem_cons_self)
  · rcases List.mem_cons.mp rest with rfl | later
    · exact Nat.le_refl _
    · have apart := none stop (List.mem_reverse.mp later)
      rw [also] at apart
      cases apart

theorem look (sound : Sound session) (id : Nat) : Sound (session.look id) := by
  rw [Session.look]
  split
  · rename_i sent looked running
    split
    · have gone : Sound (session.setStep id none) := sound.setStep id nofun
      exact ⟨gone.numbered, gone.ordered, gone.phases⟩
    · rename_i none
      refine sound.setStep id fun now same => ?_
      obtain rfl := Option.some.inj same
      refine ⟨(sound.phases id _ running).1, fun _ stop member stopped => ?_⟩
      have apart := List.find?_eq_none.mp none stop (List.mem_reverse.mpr member)
      exact absurd stopped apart
  · exact sound

theorem proceed (sound : Sound session) (id : Nat) : Sound (session.proceed id) := by
  rw [Session.proceed]
  split
  · rename_i sent value running answered
    refine sound.setStep id fun now same => ?_
    obtain rfl := Option.some.inj same
    exact ⟨sound.phases id _ running, nofun⟩
  · exact sound.setStep id nofun
  · exact sound.setStep id nofun
  · exact sound

theorem noteTurn (sound : Sound session) (turn : Transition.Turn Unit Value) : Sound (session.noteTurn turn) := by
  cases turn with
  | message message => exact sound.routeEvent message
  | written id =>
      rw [Session.noteTurn, noteSent]
      split
      · refine sound.setStep id fun now same => ?_
        obtain rfl := Option.some.inj same
        exact Nat.le_refl _
      · exact sound
  | register | writeFailed | finish | timeout | endOfStream => exact sound

theorem step (sound : Sound session) (action : Action) : Sound (session.step action) := by
  cases action with
  | turn turn =>
      have noted := sound.noteTurn turn
      exact ⟨noted.numbered, noted.ordered, noted.phases⟩
  | beginStep =>
      have begun : Sound (session.setStep session.board.nextId (some .unsent)) :=
        sound.setStep session.board.nextId fun now same => by
          obtain rfl := Option.some.inj same
          trivial
      exact ⟨begun.numbered, begun.ordered, begun.phases⟩
  | proceed id => exact sound.proceed id
  | look id => exact sound.look id
  | giveUp id =>
      rw [Session.step, giveUp]
      split
      · exact sound.setStep id nofun
      · exact sound
  | drainEvents =>
      refine ⟨nofun, List.Pairwise.nil, fun id phase running => ?_⟩
      have within := sound.phases id phase running
      cases phase with
      | unsent => trivial
      | asked sent => exact within
      | looking sent looked => exact ⟨within.1, fun _ => nofun⟩
  | setRunState current => exact ⟨sound.numbered, sound.ordered, sound.phases⟩

end Sound

theorem sound_after (actions : List Action) : Sound (after actions) := by
  induction actions using List.reverseRecOn with
  | nil => exact ⟨nofun, List.Pairwise.nil, nofun⟩
  | append_singleton actions action ih =>
      rw [after, run_concat]
      exact ih.step action

/-- When a step looks for the first time, no stop from before its request is among the recent events,
or a later stop is. -/
def FirstLookFresh (before : List Action) (action : Action) : Prop :=
  ∀ id sent, action = .look id → (after before).steps id = some (.looking sent false) →
    ∀ old ∈ recent before, isStopped old.event = true → old.number < sent →
      ∃ own ∈ recent before, isStopped own.event = true ∧ sent ≤ own.number

theorem look_own_iff {session : Session} (sound : Sound session) {id sent : Nat} {looked : Bool}
    (running : session.steps id = some (.looking sent looked)) {found : Received}
    (last : lastStopped session.events = some found) :
    sent ≤ found.number ↔ (looked = false →
      ∀ old ∈ session.events, isStopped old.event = true → old.number < sent →
        ∃ own ∈ session.events, isStopped own.event = true ∧ sent ≤ own.number) := by
  obtain ⟨member, stopped, newest⟩ := sound.lastStopped last
  constructor
  · exact fun later _ _ _ _ _ => ⟨found, member, stopped, later⟩
  · intro fresh
    cases looked with
    | true => exact (sound.phases id _ running).2 rfl found member stopped
    | false =>
        by_contra stale
        obtain ⟨own, inside, stop, later⟩ := fresh rfl found member stopped (Nat.not_le.mp stale)
        exact stale (Nat.le_trans later (newest own inside stop))

/-- Only a look reports something. -/
theorem reports_step (session : Session) {action : Action} (other : ∀ id, action ≠ .look id) :
    (session.step action).reports = session.reports := by
  cases action with
  | look id => exact absurd rfl (other id)
  | turn turn =>
      cases turn with
      | message message =>
          rw [step, noteTurn, routeEvent]
          split_ifs <;> rfl
      | written id =>
          rw [step, noteTurn, noteSent]
          split <;> rfl
      | register | writeFailed | finish | timeout | endOfStream => rfl
  | proceed id =>
      rw [step, proceed]
      split <;> rfl
  | giveUp id =>
      rw [step, giveUp]
      split <;> rfl
  | beginStep | drainEvents | setRunState => rfl

theorem look_reports_iff (before : List Action) (id : Nat) :
    (∀ report ∈ ((after before).look id).reports, report.Own) ↔
      (∀ report ∈ (after before).reports, report.Own) ∧ FirstLookFresh before (.look id) := by
  have sound := sound_after before
  rw [FirstLookFresh, ← events_eq, look]
  split
  · rename_i sent looked running
    split
    · rename_i found last
      rw [List.forall_mem_append, List.forall_mem_singleton]
      refine and_congr_right fun _ => ⟨?_, ?_⟩
      · rintro own other sent' same first
        obtain rfl := Action.look.inj same
        cases Option.some.inj (running.symm.trans first)
        exact (look_own_iff sound running last).mp own.later rfl
      · intro fresh
        refine ⟨(look_own_iff sound running last).mpr fun first => ?_, rfl,
          RunState.follow_thread _ _, RunState.follow_frame _ _⟩
        rw [first] at running
        exact fresh id sent rfl running
    · rename_i none
      refine (and_iff_left ?_).symm
      intro other sent' _ _ old member stopped
      have apart := List.find?_eq_none.mp none old (List.mem_reverse.mpr member)
      exact absurd stopped apart
  · rename_i idle
    refine (and_iff_left ?_).symm
    intro other sent same first
    obtain rfl := Action.look.inj same
    exact absurd first (idle sent false)

/-- Every step reports its own stop, when no step finds only stops from before its request as it looks
for the first time. -/
theorem ownStops_iff (actions : List Action) :
    (∀ report ∈ (after actions).reports, report.Own) ↔ Throughout FirstLookFresh actions := by
  induction actions using List.reverseRecOn with
  | nil => exact iff_of_true nofun (.nil _)
  | append_singleton actions action ih =>
      rw [Throughout.concat_iff, ← ih, after, run_concat]
      by_cases looks : ∃ id, action = .look id
      · obtain ⟨id, rfl⟩ := looks
        exact look_reports_iff actions id
      · have other : ∀ id, action ≠ .look id := fun id same => looks ⟨id, same⟩
        rw [reports_step _ other]
        refine (and_iff_left ?_).symm
        intro id sent same
        exact absurd same (other id)

/-- An event of an adapter that stops at a line. -/
def stopAt (reason : String) (line thread : Nat) : Value :=
  .object [("body", .object [("line", .ofNat line), ("reason", .string reason),
    ("threadId", .ofNat thread)]), ("event", .string "stopped"), ("type", .string "event")]

/-- A program stops at a breakpoint, and a step looks for its stop before the program gets there. -/
def staleStop : List Action :=
  [.turn (.message (stopAt "breakpoint" 10 1)), .beginStep, .turn (.written 1),
    .turn (.message (.object [("request_seq", .ofNat 1), ("success", .bool true),
      ("type", .string "response")])), .turn (.finish 1), .proceed 1, .look 1,
    .turn (.message (stopAt "step" 11 1))]

/-- The step reports the stop at the breakpoint. -/
theorem staleStop_reported :
    (after staleStop).reports.map (fun report => (report.sent, report.found.number)) = [(1, 0)] ∧
      ¬ ∀ report ∈ (after staleStop).reports, report.Own := by
  have numbers : (after staleStop).reports.map
      (fun report => (report.sent, report.found.number)) = [(1, 0)] := rfl
  refine ⟨numbers, fun all => ?_⟩
  obtain ⟨report, member, same⟩ := List.mem_map.mp (numbers ▸ List.mem_singleton.mpr rfl :
    (1, 0) ∈ (after staleStop).reports.map fun report => (report.sent, report.found.number))
  have later := (all report member).later
  rw [Prod.mk.injEq] at same
  omega

end Session

end Daemon.DapClient
