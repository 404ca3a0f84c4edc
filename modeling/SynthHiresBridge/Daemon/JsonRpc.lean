import SynthHiresBridge.Daemon.Protocol
import SynthHiresBridge.Data.JsonText
import SynthHiresBridge.Transition.Pending

namespace Daemon

open Json Transition

namespace LspEngine

/-- A server is asked to initialize, and later it gets requests about a document. -/
inductive CallKind where
  | initialization
  | request
  deriving DecidableEq

/-- The reader looks at the number of a message only. -/
def route (message : Value) : Option (Nat × Value) :=
  ((message.get "id").bind Value.asU64).map fun id => (id, message)

/-- `do_request` removes its number after a failed write and after a time-out, and `initialize`
never does. -/
def releases : CallKind → Exit Value → Bool
  | .request, .writeFailed => true
  | .request, .timedOut => true
  | _, _ => false

/-- The reader stops at the end of the stream, and the map stays with the server. -/
def client : Client CallKind Value Value where
  route := route
  releases := releases
  farewell := none

def initializeResult (fault : DaemonError) : Exit Value → Except DaemonError Unit
  | .writeFailed => .error fault
  | .answered reply => match reply.get "error" with
      | some error => .error (.protocol ("lsp initialize error: " ++ String.ofList error.text))
      | none => .ok ()
  | .dropped => .error (.protocol "lsp initialize: server died")
  | .timedOut => .error (.protocol "lsp initialize: timed out")

/-- The result of `do_request` is the result of the reply, or null. -/
def requestResult (method : String) (fault : DaemonError) : Exit Value → Except DaemonError Value
  | .writeFailed => .error fault
  | .answered reply => match reply.get "error" with
      | some error =>
          .error (.protocol ("lsp " ++ method ++ " error: " ++ String.ofList error.text))
      | none => .ok ((reply.get "result").getD .null)
  | .dropped => .error (.protocol ("lsp " ++ method ++ ": server dropped the response"))
  | .timedOut => .error (.protocol ("lsp " ++ method ++ ": timed out"))

end LspEngine

namespace DapClient

/-- Responses carry the number of their request, and a response without success is an error. -/
def routeMessage (message : Value) : Option (Nat × Except String Value) :=
  if (message.get "type").bind Value.asStr = some "response" then
    ((message.get "request_seq").bind Value.asU64).map fun id =>
      (id, if ((message.get "success").bind Value.asBool).getD false then
          .ok ((message.get "body").getD .null)
        else .error (((message.pointer ["message"]).bind Value.asStr).getD "adapter error"))
  else none

/-- `request` removes its number after a time-out only. -/
def releases : Unit → Exit (Except String Value) → Bool
  | _, .timedOut => true
  | _, _ => false

/-- The reader fails every request in the map when the adapter exits. -/
def client : Client Unit Value (Except String Value) where
  route := routeMessage
  releases := releases
  farewell := some (.error "adapter exited")

def requestResult (command : String) (fault : String) :
    Exit (Except String Value) → Except String Value
  | .writeFailed => .error fault
  | .answered result => result
  | .dropped => .error "adapter reader dropped the request"
  | .timedOut => .error ("adapter timeout on '" ++ command ++ "'")

end DapClient

namespace McpServerState

/-- A response has a number and a result or an error. -/
def classifyResponse (message : Value) : Option (Nat × Bool × Value) :=
  ((message.get "id").bind Value.asU64).bind fun id =>
    match message.get "result" with
    | some result => some (id, true, result)
    | none => (message.get "error").map fun error => (id, false, error)

def envelope (ok : Bool) (payload : Value) : Value :=
  .object [("ok", .bool ok), ("payload", payload)]

def route (message : Value) : Option (Nat × Value) :=
  (classifyResponse message).map fun response =>
    (response.1, envelope response.2.1 response.2.2)

/-- The reader fails every request in the map when the server exits, and `rpc` never removes its
number itself. -/
def client : Client Unit Value Value where
  route := route
  releases _ _ := false
  farewell := some (envelope false (.object [("message", .string "server exited")]))

def rpcResult (server method : String) (timeoutMs : Nat) (fault : String) :
    Exit Value → Except String Value
  | .writeFailed => .error fault
  | .answered reply => match (reply.get "ok").bind Value.asBool with
      | some true => .ok ((reply.get "payload").getD .null)
      | _ => .error ("server '" ++ server ++ "': " ++
          ((((reply.get "payload").getD .null).get "message").bind Value.asStr).getD
            "unknown error")
  | .dropped => .error ("server '" ++ server ++ "': dropped while '" ++ method ++ "' was pending")
  | .timedOut => .error ("server '" ++ server ++ "': '" ++ method ++ "' timed out after " ++
      toString timeoutMs ++ "ms")

end McpServerState

end Daemon
