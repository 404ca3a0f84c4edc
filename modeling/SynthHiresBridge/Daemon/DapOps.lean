import SynthHiresBridge.Daemon.JsonRpc

namespace Daemon.DapClient

open Json Transition

def eventRing : Nat := 100

/-- The thread and the frame that later operations look at. -/
structure RunState where
  thread : Nat
  frame : Option Nat
  deriving DecidableEq

/-- An event with its number among the events of the adapter, which no operation looks at. -/
structure Received where
  number : Nat
  event : Value

/-- A step sends its request, waits for the reply and looks for a stop. It remembers how many events
had come when the request was sent, and whether it has looked. -/
inductive StepPhase where
  | unsent
  | asked (sent : Nat)
  | looking (sent : Nat) (looked : Bool)

/-- What a step with a stop gave back, with the event that the stop was taken from and the run state
before and after. -/
structure Report where
  sent : Nat
  found : Received
  stopped : Value
  before : RunState
  after : RunState

structure Session where
  board : Board Unit (Except String Value)
  events : List Received
  received : Nat
  current : RunState
  steps : Nat → Option StepPhase
  reports : List Report

/-- The turns of the calls and of the reader, the turns of a step, `drain_events` of the operation
`Events`, and `set_run_state` of other operations. -/
inductive Action where
  | turn (turn : Transition.Turn Unit Value)
  | beginStep
  | proceed (id : Nat)
  | look (id : Nat)
  | giveUp (id : Nat)
  | drainEvents
  | setRunState (state : RunState)

def isEvent (message : Value) : Bool := (message.get "type").bind Value.asStr = some "event"

def isStopped (event : Value) : Bool := (event.get "event").bind Value.asStr = some "stopped"

def stoppedThread (event : Value) : Option Nat :=
  (event.pointer ["body", "threadId"]).bind Value.asU64

def stoppedObject (event : Value) : Value :=
  .object [("line", (event.pointer ["body", "line"]).getD .null),
    ("reason", (event.pointer ["body", "reason"]).getD .null),
    ("threadId", (event.pointer ["body", "threadId"]).getD .null)]

/-- A stop without a thread leaves the thread as it was. -/
def RunState.follow (state : RunState) (event : Value) : RunState :=
  match stoppedThread event with
  | some thread => { state with thread }
  | none => state

/-- `wait_for_stopped` looks through the ring from its end. -/
def lastStopped (events : List Received) : Option Received :=
  events.reverse.find? fun received => isStopped received.event

/-- An event that comes to a full ring takes the place of the oldest one. -/
def pushEvent {Event : Type*} (events : List Event) (event : Event) : List Event :=
  (if events.length ≥ eventRing then events.drop 1 else events) ++ [event]

namespace Session

def start : Session := ⟨.empty 1, [], 0, ⟨1, none⟩, fun _ => none, []⟩

/-- The reader routes a message until the stream ends, and events go to the ring. -/
def routeEvent (session : Session) (message : Value) : Session :=
  if session.board.ended = false ∧ isEvent message then
    { session with
      events := pushEvent session.events ⟨session.received, message⟩
      received := session.received + 1 }
  else session

def setStep (session : Session) (id : Nat) (phase : Option StepPhase) : Session :=
  { session with steps := Function.update session.steps id phase }

/-- The request of a step is sent when it is written. -/
def noteSent (session : Session) (id : Nat) : Session :=
  match session.steps id, session.board.calls id with
  | some .unsent, some (_, .writing) => session.setStep id (some (.asked session.received))
  | _, _ => session

def noteTurn (session : Session) : Transition.Turn Unit Value → Session
  | .message message => session.routeEvent message
  | .written id => session.noteSent id
  | _ => session

/-- A step goes on when its request was successful. -/
def proceed (session : Session) (id : Nat) : Session :=
  match session.steps id, session.board.outcomes.lookup id with
  | some (.asked sent), some (.answered (.ok _)) =>
      session.setStep id (some (.looking sent false))
  | some .unsent, some _ => session.setStep id none
  | some (.asked _), some _ => session.setStep id none
  | _, _ => session

/-- A step that finds a stop gives it back and takes the thread of the run state from it. -/
def look (session : Session) (id : Nat) : Session :=
  match session.steps id with
  | some (.looking sent _) => match lastStopped session.events with
      | some found =>
          let current := session.current.follow found.event
          { session.setStep id none with
            current
            reports := session.reports ++
              [⟨sent, found, stoppedObject found.event, session.current, current⟩] }
      | none => session.setStep id (some (.looking sent true))
  | _ => session

def giveUp (session : Session) (id : Nat) : Session :=
  match session.steps id with
  | some (.looking _ _) => session.setStep id none
  | _ => session

def step (session : Session) : Action → Session
  | .turn turn => { session.noteTurn turn with board := session.board.step client turn }
  | .beginStep =>
      { session.setStep session.board.nextId (some .unsent) with
        board := session.board.step client (.register ()) }
  | .proceed id => session.proceed id
  | .look id => session.look id
  | .giveUp id => session.giveUp id
  | .drainEvents => { session with events := [] }
  | .setRunState current => { session with current }

abbrev after (actions : List Action) : Session := run step start actions

end Session

end Daemon.DapClient
