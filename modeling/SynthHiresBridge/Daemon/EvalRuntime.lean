import SynthHiresBridge.Data.Json
import SynthHiresBridge.Data.Table

namespace Daemon

open Json

namespace EvalEngine

inductive Stream where
  | stdout
  | stderr
  deriving DecidableEq

def Stream.name : Stream → String
  | .stdout => "stdout"
  | .stderr => "stderr"

/-- A line for the runtime. -/
inductive EvalCommand where
  | exec (id session code : String)
  | destroy (id session : String)
  deriving DecidableEq

/-- A line of the runtime. A missing text is one that is not Unicode. The context of a console line
is not part of the line. -/
inductive Frame where
  | console (context : Nat) (id : Option String) (session : String) (stream : Stream)
      (text : Option String)
  | done (id : String) (session : Option String) (result : Option Value) (created : Option Bool)
  | error (id session : String) (message : Option String) (created : Bool)

/-- What a reader makes of a line. JSON that is not Unicode is refused. -/
def Frame.value : Frame → Option Value
  | .console _ id session stream text => text.map fun text => .object
      [("id", .ofOption id), ("session", .string session), ("type", .string stream.name),
        ("data", .string text)]
  | .done id session result created => result.map fun result => .object
      ([("id", .string id)] ++ session.toList.map (fun session => ("session", .string session)) ++
        [("type", .string "done"), ("result", result)] ++
        created.toList.map fun created => ("createdSession", .bool created))
  | .error id session message created => message.map fun message => .object
      [("id", .string id), ("session", .string session), ("type", .string "error"),
        ("error", .string message), ("createdSession", .bool created)]

/-- A session has its context, and the request in flight. -/
structure JsEntry where
  context : Nat
  currentId : String

/-- The sessions of a runtime, and the sessions that its contexts were created for. A context goes
on to exist when its session is deleted. -/
structure JsSessions where
  entries : Table String JsEntry
  contexts : List String

namespace JsSessions

def exec (sessions : JsSessions) (id session : String) : JsSessions :=
  match sessions.entries.lookup session with
  | some entry => { sessions with entries := sessions.entries.insert session ⟨entry.context, id⟩ }
  | none => ⟨sessions.entries.insert session ⟨sessions.contexts.length, id⟩,
      sessions.contexts ++ [session]⟩

def destroy (sessions : JsSessions) (session : String) : JsSessions :=
  { sessions with entries := sessions.entries.erase session }

def obey (sessions : JsSessions) : EvalCommand → JsSessions
  | .exec id session _ => sessions.exec id session
  | .destroy _ session => sessions.destroy session

end JsSessions

/-- A request that was begun, and whether it created its session. -/
structure JsRequest where
  id : String
  session : String
  created : Bool
  deriving DecidableEq

/-- A runtime has the commands that it has not read, and all lines that it wrote with the number of
those that were read. -/
structure JsRuntime where
  process : Nat
  alive : Bool
  sessions : JsSessions
  running : List JsRequest
  stdin : List EvalCommand
  written : List Frame
  taken : Nat

/-- How the code of a request settles. -/
inductive JsOutcome where
  | value (result : Option Value)
  | thrown (message : Option String)

inductive JsEvent where
  | command
  | console (context : Nat) (stream : Stream) (text : Option String)
  | settle (request : JsRequest) (outcome : JsOutcome)
  | die

namespace JsRuntime

def spawned (process : Nat) (alive : Bool) : JsRuntime := ⟨process, alive, ⟨∅, []⟩, [], [], [], 0⟩

/-- A line is written to a runtime that lives. -/
def write (runtime : JsRuntime) (command : EvalCommand) : Option JsRuntime :=
  if runtime.alive then some { runtime with stdin := runtime.stdin ++ [command] } else none

def send (runtime : JsRuntime) (frame : Frame) : JsRuntime :=
  { runtime with written := runtime.written ++ [frame] }

def handle (runtime : JsRuntime) (command : EvalCommand) : JsRuntime :=
  let obeyed := { runtime with sessions := runtime.sessions.obey command }
  match command with
  | .destroy id _ => obeyed.send (.done id none (some .null) none)
  | .exec id session _ =>
      let created := (runtime.sessions.entries.lookup session).isNone
      { obeyed with running := obeyed.running ++ [⟨id, session, created⟩] }

/-- The console of a context names the session of the context, and the request in flight there. -/
def consoleFrame (runtime : JsRuntime) (context : Nat) (session : String) (stream : Stream)
    (text : Option String) : Frame :=
  .console context ((runtime.sessions.entries.lookup session).map JsEntry.currentId) session stream text

def settledFrame (request : JsRequest) : JsOutcome → Frame
  | .value result => .done request.id (some request.session) result (some request.created)
  | .thrown message => .error request.id request.session message request.created

def step (runtime : JsRuntime) (event : JsEvent) : JsRuntime :=
  if !runtime.alive then runtime
  else match event with
    | .command => match runtime.stdin with
        | [] => runtime
        | command :: rest => ({ runtime with stdin := rest }).handle command
    | .console context stream text => match runtime.sessions.contexts[context]? with
        | some session => runtime.send (runtime.consoleFrame context session stream text)
        | none => runtime
    | .settle request outcome =>
        if request ∈ runtime.running then
          ({ runtime with running := runtime.running.erase request }).send
            (settledFrame request outcome)
        else runtime
    | .die => { runtime with alive := false }

/-- The sessions that the runtime comes to when it has obeyed all commands. -/
def settled (runtime : JsRuntime) : JsSessions := runtime.stdin.foldl JsSessions.obey runtime.sessions

end JsRuntime

end EvalEngine

end Daemon
