import SynthHiresBridge.Daemon.Capability
import SynthHiresBridge.Daemon.EvalRuntime
import SynthHiresBridge.Data.Text

namespace Daemon

open Json

namespace EvalEngine

def maxCodeBytes : Nat := 1000000

@[irreducible] def maxCapturedChars : Nat := 200000

/-- Times are counted in milliseconds. -/
def execTimeout : Nat := 30000

def sessionTtl : Nat := 600000

structure EvalRequest where
  code : String
  session : Option String

/-- A context of a process. -/
abbrev Context := Nat × Nat

/-- A text that was captured, and the context that it came from. -/
structure Captured where
  context : Option Context
  text : String
  deriving DecidableEq

/-- A buffer, and the texts that were appended to it for the record. -/
structure Capture where
  text : String
  frames : List Captured
  deriving DecidableEq

def Capture.empty : Capture := ⟨"", []⟩

/-- A full buffer takes a mark of what is left out. -/
def appendText (buffer text : String) : String :=
  if buffer.utf8ByteSize < maxCapturedChars then buffer ++ text ++ "\n"
  else if "…\n".toList.isSuffixOf buffer.toList then buffer
  else buffer ++ "…\n"

def appendCapped (buffer : Capture) (data : Option Value) (context : Option Context) : Capture :=
  match data.bind Value.asStr with
  | some text => ⟨appendText buffer.text text, buffer.frames ++ [⟨context, text⟩]⟩
  | none => buffer

structure PendingOut where
  stdout : Capture
  stderr : Capture

namespace PendingOut

def empty : PendingOut := ⟨.empty, .empty⟩

def of (output : PendingOut) : Stream → Capture
  | .stdout => output.stdout
  | .stderr => output.stderr

def append (output : PendingOut) (stream : Stream) (data : Option Value) (context : Option Context) :
    PendingOut :=
  match stream with
  | .stdout => { output with stdout := appendCapped output.stdout data context }
  | .stderr => { output with stderr := appendCapped output.stderr data context }

end PendingOut

structure EvalResult where
  sessionId : String
  createdSession : Bool
  output : PendingOut
  result : Option Value

inductive EvalError where
  | daemon (error : DaemonError)
  | evalFailed (sessionId : String) (createdSession : Bool) (message : String) (output : PendingOut)

/-- How a call came back, and for the record the context that served it. -/
structure Answer where
  context : Option Context
  outcome : Except EvalError EvalResult

/-- The output that a call came back with. -/
def Answer.output (answer : Answer) : PendingOut :=
  match answer.outcome with
  | .ok result => result.output
  | .error (.evalFailed _ _ _ output) => output
  | .error (.daemon _) => .empty

structure EngineInner where
  runtime : Option JsRuntime
  sessions : Table String Nat
  pending : Table String PendingOut

/-- What an attempt to write meets: whether a new runtime starts, and lives until the line is
written, and how the system names a failure. -/
structure Attempt where
  id : String
  spawn : Except DaemonError Bool
  detail : String

/-- A line is written to the runtime, which is started first if there is none. -/
def sendRequest (inner : EngineInner) (process : Nat) (attempt : Attempt) (command : EvalCommand) :
    Except DaemonError Unit × EngineInner :=
  match inner.runtime.elim (attempt.spawn.map (JsRuntime.spawned process)) .ok with
  | .error error => (.error error, inner)
  | .ok runtime => match runtime.write command with
      | some written => (.ok (), { inner with runtime := some written })
      | none => (.error (.protocol ("eval runtime stdin: " ++ attempt.detail)),
          { inner with runtime := some runtime })

/-- The runtime is killed, and all sessions go with it. -/
def killRuntime (inner : EngineInner) : EngineInner :=
  { inner with runtime := none, sessions := ∅, pending := ∅ }

def expired (inner : EngineInner) (now : Nat) : List String :=
  (inner.sessions.entries.filter fun entry => decide (now - entry.2 > sessionTtl)).map Sigma.fst

/-- A call drops the sessions that idled too long, and then it reads the lines of the runtime. -/
inductive CallStage where
  | reaping (expired : List String)
  | reading (requestId : String) (deadline : Nat) (output : PendingOut)

structure EvalCall where
  session : String
  code : String
  stage : CallStage

/-- The engine with the call that holds its lock, a number for the next process, the identifiers
that were used, and how its calls came back. -/
structure EvalWorld where
  inner : EngineInner
  call : Option EvalCall
  now : Nat
  nextProcess : Nat
  used : List String
  answers : List Answer

inductive EvalEvent where
  | passes (elapsed : Nat)
  | exec (gate : CapabilityGate) (request : EvalRequest) (fresh : String)
  | reap (session : String) (attempt : Attempt)
  | send (attempt : Attempt)
  | read
  | readError (detail : String)
  | lapse
  | deadline
  | runtime (event : JsEvent)

namespace EvalWorld

def start : EvalWorld := ⟨⟨none, ∅, ∅⟩, none, 0, 0, [], []⟩

def finish (world : EvalWorld) (context : Option Context) (outcome : Except EvalError EvalResult) :
    EvalWorld :=
  { world with call := none, answers := world.answers ++ [⟨context, outcome⟩] }

def fail (world : EvalWorld) (error : DaemonError) : EvalWorld :=
  world.finish none (.error (.daemon error))

/-- The context that a session has when all commands are obeyed. -/
def serving (world : EvalWorld) (session : String) : Option Context :=
  world.inner.runtime.bind fun runtime =>
    (runtime.settled.entries.lookup session).map fun entry => (runtime.process, entry.context)

/-- The checks of a call, and the sessions that it drops first. -/
def exec (world : EvalWorld) (gate : CapabilityGate) (request : EvalRequest) (fresh : String) :
    EvalWorld :=
  if request.code.utf8ByteSize > maxCodeBytes then
    world.fail (.protocol ("eval: code too large (" ++ toString request.code.utf8ByteSize ++ " > " ++
      toString maxCodeBytes ++ " bytes)"))
  else if !gate.allows "desktop.shell.execute" then
    world.fail (.capabilityDenied "desktop.code.eval requires the shell.execute scope")
  else
    let named := request.session.filter fun session => decide (Text.trim session ≠ "")
    { world with call := some ⟨named.getD fresh, request.code,
      .reaping (expired world.inner world.now)⟩ }

def reap (world : EvalWorld) (call : EvalCall) (rest : List String) (session : String)
    (attempt : Attempt) : EvalWorld :=
  let inner := { world.inner with
    sessions := world.inner.sessions.erase session
    pending := world.inner.pending.erase session }
  { world with
    inner := (sendRequest inner world.nextProcess attempt (.destroy attempt.id session)).2
    call := some { call with stage := .reaping rest }
    nextProcess := world.nextProcess + 1
    used := attempt.id :: world.used }

/-- The request is written, and the output that was held for its session goes to its call. -/
def send (world : EvalWorld) (call : EvalCall) (attempt : Attempt) : EvalWorld :=
  let sent := sendRequest world.inner world.nextProcess attempt (.exec attempt.id call.session call.code)
  let tried := { world with
    inner := sent.2, nextProcess := world.nextProcess + 1, used := attempt.id :: world.used }
  match sent.1 with
  | .error error => tried.fail error
  | .ok _ =>
      let queued := (sent.2.pending.lookup call.session).getD .empty
      let stage := CallStage.reading attempt.id (world.now + execTimeout) queued
      { tried with
        inner := { sent.2 with pending := sent.2.pending.erase call.session }
        call := some { call with stage := stage } }

def kill (world : EvalWorld) (text : String) : EvalWorld :=
  ({ world with inner := killRuntime world.inner }).fail (.protocol text)

/-- A console line goes to the call of its session, or is held for it while the session lives. -/
def route (world : EvalWorld) (call : EvalCall) (requestId : String) (deadline : Nat)
    (output : PendingOut) (context : Option Context) (stream : Stream) (message : Value) : EvalWorld :=
  let id := (message.get "id").bind Value.asStr
  let session := (message.get "session").bind Value.asStr
  let data := message.get "data"
  if session = some call.session ∨ session = none ∧ id = some requestId then
    { world with call := some { call with
        stage := .reading requestId deadline (output.append stream data context) } }
  else match session with
    | some other =>
        if (world.inner.sessions.lookup other).isSome then
          let slot := (world.inner.pending.lookup other).getD .empty
          { world with inner := { world.inner with
              pending := world.inner.pending.insert other (slot.append stream data context) } }
        else world
    | none => world

def nonNull : Value → Option Value
  | .null => none
  | value => some value

def created (message : Value) : Bool :=
  ((message.get "createdSession").bind Value.asBool).getD false

/-- The call comes back, and its session lives from now on. -/
def complete (world : EvalWorld) (call : EvalCall) (outcome : Except EvalError EvalResult) : EvalWorld :=
  ({ world with inner := { world.inner with
      sessions := world.inner.sessions.insert call.session world.now } }).finish
    (world.serving call.session) outcome

def receive (world : EvalWorld) (call : EvalCall) (requestId : String) (deadline : Nat)
    (output : PendingOut) (context : Option Context) (message : Value) : EvalWorld :=
  let own := (message.get "id").bind Value.asStr = some requestId
  match ((message.get "type").bind Value.asStr).getD "" with
  | "stdout" => world.route call requestId deadline output context .stdout message
  | "stderr" => world.route call requestId deadline output context .stderr message
  | "done" =>
      if own then world.complete call (.ok ⟨call.session, created message, output,
        (message.get "result").bind nonNull⟩)
      else world
  | "error" =>
      if own then world.complete call (.error (.evalFailed call.session (created message)
        (((message.get "error").bind Value.asStr).getD "unknown eval error") output))
      else world
  | _ => world

def Frame.origin (process : Nat) : Frame → Option Context
  | .console context _ _ _ _ => some (process, context)
  | _ => none

/-- The reader takes the next line. At the end of the stream the runtime is gone. -/
def read (world : EvalWorld) (call : EvalCall) (requestId : String) (deadline : Nat)
    (output : PendingOut) : EvalWorld :=
  match world.inner.runtime with
  | none => world
  | some runtime => match runtime.written[runtime.taken]? with
      | some frame =>
          let taken := { world with inner := { world.inner with
            runtime := some { runtime with taken := runtime.taken + 1 } } }
          match frame.value with
          | some message => taken.receive call requestId deadline output
              (Frame.origin runtime.process frame) message
          | none => taken
      | none =>
          if runtime.alive then world
          else world.kill "eval: runtime exited unexpectedly; sessions destroyed"

/-- Calls hold the lock of the engine, identifiers are new, and the timer of a call rings at its
deadline. -/
def step (world : EvalWorld) : EvalEvent → EvalWorld
  | .passes elapsed => { world with now := world.now + elapsed }
  | .runtime event => { world with inner := { world.inner with
      runtime := world.inner.runtime.map fun runtime => runtime.step event } }
  | .exec gate request fresh => match world.call with
      | none => world.exec gate request fresh
      | some _ => world
  | .reap session attempt => match world.call with
      | some ⟨own, code, .reaping expired⟩ =>
          if session ∈ expired ∧ attempt.id ∉ world.used then
            world.reap ⟨own, code, .reaping expired⟩ (expired.erase session) session attempt
          else world
      | _ => world
  | .send attempt => match world.call with
      | some ⟨own, code, .reaping []⟩ =>
          if attempt.id ∉ world.used then world.send ⟨own, code, .reaping []⟩ attempt else world
      | _ => world
  | .read => match world.call with
      | some ⟨own, code, .reading requestId deadline output⟩ =>
          world.read ⟨own, code, .reading requestId deadline output⟩ requestId deadline output
      | _ => world
  | .readError detail => match world.call with
      | some ⟨_, _, .reading _ _ _⟩ =>
          world.kill ("eval: runtime read error (" ++ detail ++ "); sessions destroyed")
      | _ => world
  | .lapse => match world.call with
      | some ⟨_, _, .reading _ deadline _⟩ =>
          if deadline ≤ world.now then
            world.kill "eval: runtime exited unexpectedly; sessions destroyed"
          else world
      | _ => world
  | .deadline => match world.call with
      | some ⟨_, _, .reading _ deadline _⟩ =>
          if deadline ≤ world.now then
            world.kill "eval timeout: runtime killed and all sessions destroyed"
          else world
      | _ => world

end EvalWorld

end EvalEngine

end Daemon
