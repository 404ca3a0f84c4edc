import SynthHiresBridge.Daemon.WsClient

namespace Daemon

open Json

/-- An identifier of a process has 128 bits. -/
abbrev Uuid := BitVec 128

inductive MemoryOp where
  | remember (project content : String) (kind : Option String) (importance : Option Int)
      (tags : List String)
  | recall (project : String) (query : Option String) (limit : Option Int)
  | forget (project : String) (id : Option Int) (all : Bool)
  | reflect (project summary : String) (tags : List String)
  | stats (project : String)
  deriving DecidableEq

inductive ProcOp where
  | start (cwd command : String) (args : List String)
  | signal (id : Uuid) (signal : Option String)
  | logs (id : Uuid) (start max : Option Nat)
  | wait (id : Uuid) (timeoutMs : Option Nat)
  | list
  | probe (port : Nat) (host : Option String)
  deriving DecidableEq

inductive PtyOp where
  | run (session command : String) (timeoutMs : Option Nat)
  | read (session : String)
  | status (session : String)
  | list
  | exit (session : String)
  deriving DecidableEq

inductive DapOp where
  | start (session : String) (adapter : List String) (cwd : Option String) (launch : Value)
      (stopOnEntry : Bool)
  | setBreakpoints (session file : String) (lines : List Nat)
  | stackTrace (session : String) (threadId : Option Nat)
  | variables (session : String) (frameId : Option Nat)
  | continue (session : String) (threadId : Option Nat)
  | step (session : String) (action : Option String) (threadId : Option Nat)
  | pause (session : String) (threadId : Option Nat)
  | eval (session expression : String) (frameId : Option Nat) (format : Option Value)
  | setVariable (session : String) (variablesReference : Nat) (name value : String)
      (format : Option Value)
  | source (session : String) (sourceReference : Nat) (lines : Option (Nat × Nat))
  | sessions
  | threads (session : String)
  | events (session : String)
  | stop (session : String)

inductive McpOp where
  | status
  | listTools (server : String)
  | call (server tool : String) (args : Value)
  | stop (server : String)

/-- The variants of an operation carry their names in the field `op`. -/
def readOp (params : Value) : Option (String × Value) := params.tagged "op"

/-- A field of any shape. -/
def anyValue (value : Value) : Option Value := some value

/-- A pair of short integers. -/
def linePair (value : Value) : Option (Nat × Nat) :=
  match value with
  | .array [first, last] => do
      return (← first.asBelow UInt32.size, ← last.asBelow UInt32.size)
  | _ => none

def MemoryOp.ofParams (params : Value) : Option MemoryOp := do
  let (op, rest) ← readOp params
  match op with
  | "remember" => match rest.fields ["project", "content", "kind", "importance", "tags"] with
      | some [project, content, kind, importance, tags] => do
          return .remember (← project.bind Value.asStr) (← content.bind Value.asStr)
            (← Value.optional Value.asStr kind) (← Value.optional Value.asI64 importance)
            (← Value.defaulted [] (Value.listOf Value.asStr) tags)
      | _ => none
  | "recall" => match rest.fields ["project", "query", "limit"] with
      | some [project, query, limit] => do
          return .recall (← project.bind Value.asStr) (← Value.optional Value.asStr query)
            (← Value.optional Value.asI64 limit)
      | _ => none
  | "forget" => match rest.fields ["project", "id", "all"] with
      | some [project, id, all] => do
          return .forget (← project.bind Value.asStr) (← Value.optional Value.asI64 id)
            (← Value.defaulted false Value.asBool all)
      | _ => none
  | "reflect" => match rest.fields ["project", "summary", "tags"] with
      | some [project, summary, tags] => do
          return .reflect (← project.bind Value.asStr) (← summary.bind Value.asStr)
            (← Value.defaulted [] (Value.listOf Value.asStr) tags)
      | _ => none
  | "stats" => match rest.fields ["project"] with
      | some [project] => do return .stats (← project.bind Value.asStr)
      | _ => none
  | _ => none

/-- The text of an identifier is read by its library. -/
def ProcOp.ofParams (parseUuid : String → Option Uuid) (params : Value) : Option ProcOp := do
  let (op, rest) ← readOp params
  let uuid (field : Option Value) : Option Uuid := (field.bind Value.asStr).bind parseUuid
  match op with
  | "start" => match rest.fields ["cwd", "command", "args"] with
      | some [cwd, command, args] => do
          return .start (← cwd.bind Value.asStr) (← command.bind Value.asStr)
            (← Value.defaulted [] (Value.listOf Value.asStr) args)
      | _ => none
  | "signal" => match rest.fields ["id", "signal"] with
      | some [id, kind] => do
          return .signal (← uuid id) (← Value.optional Value.asStr kind)
      | _ => none
  | "logs" => match rest.fields ["id", "start", "max"] with
      | some [id, first, max] => do
          return .logs (← uuid id) (← Value.optional Value.asU64 first)
            (← Value.optional Value.asU64 max)
      | _ => none
  | "wait" => match rest.fields ["id", "timeoutMs"] with
      | some [id, timeoutMs] => do
          return .wait (← uuid id) (← Value.optional Value.asU64 timeoutMs)
      | _ => none
  | "list" => match rest.fields [] with
      | some [] => some .list
      | _ => none
  | "probe" => match rest.fields ["port", "host"] with
      | some [port, host] => do
          return .probe (← port.bind (Value.asBelow UInt16.size))
            (← Value.optional Value.asStr host)
      | _ => none
  | _ => none

def PtyOp.ofParams (params : Value) : Option PtyOp := do
  let (op, rest) ← readOp params
  let session (build : String → PtyOp) : Option PtyOp := match rest.fields ["session"] with
    | some [session] => (session.bind Value.asStr).map build
    | _ => none
  match op with
  | "run" => match rest.fields ["session", "command", "timeoutMs"] with
      | some [session, command, timeoutMs] => do
          return .run (← session.bind Value.asStr) (← command.bind Value.asStr)
            (← Value.optional Value.asU64 timeoutMs)
      | _ => none
  | "read" => session .read
  | "status" => session .status
  | "list" => match rest.fields [] with
      | some [] => some .list
      | _ => none
  | "exit" => session .exit
  | _ => none

def DapOp.ofParams (params : Value) : Option DapOp := do
  let (op, rest) ← readOp params
  let session (build : String → DapOp) : Option DapOp := match rest.fields ["session"] with
    | some [session] => (session.bind Value.asStr).map build
    | _ => none
  let threaded (build : String → Option Nat → DapOp) : Option DapOp :=
    match rest.fields ["session", "threadId"] with
    | some [session, threadId] => do
        return build (← session.bind Value.asStr) (← Value.optional Value.asU64 threadId)
    | _ => none
  match op with
  | "start" => match rest.fields ["session", "adapter", "cwd", "launch", "stopOnEntry"] with
      | some [session, adapter, cwd, launch, stopOnEntry] => do
          return .start (← session.bind Value.asStr) (← adapter.bind (Value.listOf Value.asStr))
            (← Value.optional Value.asStr cwd) (← launch)
            (← Value.defaulted false Value.asBool stopOnEntry)
      | _ => none
  | "setBreakpoints" => match rest.fields ["session", "file", "lines"] with
      | some [session, file, lines] => do
          return .setBreakpoints (← session.bind Value.asStr) (← file.bind Value.asStr)
            (← lines.bind (Value.listOf (Value.asBelow UInt32.size)))
      | _ => none
  | "stackTrace" => threaded .stackTrace
  | "variables" => match rest.fields ["session", "frameId"] with
      | some [session, frameId] => do
          return .variables (← session.bind Value.asStr) (← Value.optional Value.asU64 frameId)
      | _ => none
  | "continue" => threaded .continue
  | "step" => match rest.fields ["session", "action", "threadId"] with
      | some [session, action, threadId] => do
          return .step (← session.bind Value.asStr) (← Value.optional Value.asStr action)
            (← Value.optional Value.asU64 threadId)
      | _ => none
  | "pause" => threaded .pause
  | "eval" => match rest.fields ["session", "expression", "frameId", "format"] with
      | some [session, expression, frameId, format] => do
          return .eval (← session.bind Value.asStr) (← expression.bind Value.asStr)
            (← Value.optional Value.asU64 frameId) (← Value.optional anyValue format)
      | _ => none
  | "setVariable" =>
      match rest.fields ["session", "variablesReference", "name", "value", "format"] with
      | some [session, variablesReference, name, value, format] => do
          return .setVariable (← session.bind Value.asStr) (← variablesReference.bind Value.asU64)
            (← name.bind Value.asStr) (← value.bind Value.asStr)
            (← Value.optional anyValue format)
      | _ => none
  | "source" => match rest.fields ["session", "sourceReference", "lines"] with
      | some [session, sourceReference, lines] => do
          return .source (← session.bind Value.asStr) (← sourceReference.bind Value.asU64)
            (← Value.optional linePair lines)
      | _ => none
  | "sessions" => match rest with
      | .array (_ :: _) => none
      | _ => some .sessions
  | "threads" => session .threads
  | "events" => session .events
  | "stop" => session .stop
  | _ => none

def McpOp.ofParams (params : Value) : Option McpOp := do
  let (op, rest) ← readOp params
  match op with
  | "status" => match rest.fields [] with
      | some [] => some .status
      | _ => none
  | "list_tools" => match rest.fields ["server"] with
      | some [server] => do return .listTools (← server.bind Value.asStr)
      | _ => none
  | "call" => match rest.fields ["server", "tool", "args"] with
      | some [server, tool, args] => do
          return .call (← server.bind Value.asStr) (← tool.bind Value.asStr) (args.getD .null)
      | _ => none
  | "stop" => match rest.fields ["server"] with
      | some [server] => do return .stop (← server.bind Value.asStr)
      | _ => none
  | _ => none

/-- The engines of these five families take one operation each. -/
inductive EngineOp where
  | memory (op : MemoryOp)
  | proc (op : ProcOp)
  | pty (op : PtyOp)
  | dap (op : DapOp)
  | mcp (op : McpOp)

/-- The arm of a capability reads its operation from the parameters. -/
def EngineOp.ofRequest (parseUuid : String → Option Uuid) (request : ActionRequestFrame) :
    Option EngineOp :=
  match request.capability with
  | "desktop.memory.remember" | "desktop.memory.recall" | "desktop.memory.forget"
  | "desktop.memory.reflect" | "desktop.memory.stats" =>
      (MemoryOp.ofParams request.params).map .memory
  | "desktop.proc.op" => (ProcOp.ofParams parseUuid request.params).map .proc
  | "desktop.pty.op" => (PtyOp.ofParams request.params).map .pty
  | "desktop.debug.op" => (DapOp.ofParams request.params).map .dap
  | "desktop.mcp.op" => (McpOp.ofParams request.params).map .mcp
  | _ => none

/-- An action that is not refused before its arm hands the operation it reads to the engine. -/
def WsClient.executes (client : WsClient) (parseUuid : String → Option Uuid)
    (request : ActionRequestFrame) : Option EngineOp :=
  match client.refusal request with
  | some _ => none
  | none => EngineOp.ofRequest parseUuid request

end Daemon
