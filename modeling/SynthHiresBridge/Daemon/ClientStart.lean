import SynthHiresBridge.Daemon.DeepLink
import SynthHiresBridge.Daemon.LocalServer
import SynthHiresBridge.Daemon.Protocol

namespace Daemon

namespace ClientStart

def socketPath : String := "/api/devices/ws"

/-- A client starts for the saved pairing, for a pairing over a link, or for a local pairing. -/
inductive Start where
  | savedState
  | deepLink (wsUrl : String)
  | localPair

/-- The URL that a client gets for a backend. -/
def dialled (origin : String) : Start → String
  | .savedState => wsEndpointForOrigin origin socketPath
  | .deepLink wsUrl => wsEndpointForOrigin origin wsUrl
  | .localPair => origin

/-- A client may also start for a state file that names a device and no backend. -/
structure Dial where
  backend : Option (String × Start)
  url : String

/-- The server answers a completed pairing with a device and the URL of its socket. -/
structure Completed where
  deviceId : String
  wsUrl : String

inductive Event where
  | link (sent : List UInt8) (completes : Option Completed) (saved : LocalServer.SaveOutcome)
  | localPair (backendUrl deviceId : String) (saved : LocalServer.SaveOutcome)
  | commandPair (backend : String) (completes : Option Completed) (saved : LocalServer.SaveOutcome)
  | unpair (saved : LocalServer.SaveOutcome)
  | startup

/-- A file that is cut off reads as one of a device that is not paired. -/
def save (stateFile daemonState : DaemonState) : LocalServer.SaveOutcome → DaemonState
  | .written => daemonState
  | .kept => stateFile
  | .torn => .unpaired

/-- A pairing is completed only with a backend that passes the check. -/
def complete (backend : String) (completes : Option Completed) : Option Completed :=
  match validateBackendUrl backend with
  | .error _ => none
  | .ok () => completes

/-- An event leaves a state file, and it may start a client. -/
def outcome (configured : String) (stateFile : DaemonState) : Event → DaemonState × Option Dial
  | .link sent completes saved =>
      match DeepLink.handleLink configured sent with
      | .pair _ _ backend =>
          match complete backend completes with
          | none => (stateFile, none)
          | some done =>
              (save stateFile ⟨some done.deviceId, some backend⟩ saved,
                some ⟨some (backend, .deepLink done.wsUrl), dialled backend (.deepLink done.wsUrl)⟩)
      | _ => (stateFile, none)
  | .localPair backendUrl deviceId saved =>
      match validateBackendUrl backendUrl with
      | .error _ => (stateFile, none)
      | .ok () =>
          (save stateFile ⟨some deviceId, some backendUrl⟩ saved,
            some ⟨some (backendUrl, .localPair), dialled backendUrl .localPair⟩)
  | .commandPair backend completes saved =>
      match complete backend completes with
      | none => (stateFile, none)
      | some done => (save stateFile ⟨some done.deviceId, some backend⟩ saved, none)
  | .unpair saved => (save stateFile .unpaired saved, none)
  | .startup =>
      if stateFile.deviceId.isNone then (stateFile, none)
      else
        match stateFile.backendUrl with
        | none => (stateFile, some ⟨none, configured⟩)
        | some origin => (stateFile, some ⟨some (origin, .savedState), dialled origin .savedState⟩)

def step (configured : String) (stateFile : DaemonState) (event : Event) : DaemonState :=
  (outcome configured stateFile event).1

end ClientStart

namespace Reconnect

/-- An error of the protocol has a message, and any other error has its text. -/
inductive ConnectError where
  | protocol (message : String)
  | other (text : String)

def ConnectError.text : ConnectError → String
  | .protocol message => (DaemonError.protocol message).text
  | .other text => text

/-- One run of `connect_once`: when the server acknowledged the hello, when and how the connection
ended, and the random number for the wait after it. -/
structure Attempt where
  connectedAt : Option Nat
  endedAt : Nat
  result : Except ConnectError Unit
  random : Nat

structure WsHealth where
  connected : Bool
  lastConnectedAt : Nat
  lastDisconnectedAt : Nat
  reconnects : Nat
  lastError : String
  deriving DecidableEq

namespace WsHealth

def new : WsHealth := ⟨false, 0, 0, 0, ""⟩

def markConnected (health : WsHealth) (now : Nat) : WsHealth :=
  { health with connected := true, lastConnectedAt := now }

/-- Only a connection that was up counts. -/
def markDisconnected (health : WsHealth) (now : Nat) : WsHealth :=
  if health.connected then
    { health with
      connected := false
      lastDisconnectedAt := now
      reconnects := health.reconnects + 1 }
  else health

def setError (health : WsHealth) (message : String) : WsHealth :=
  { health with lastError := message }

end WsHealth

/-- The loop has its backoff in seconds, and it remembers its waits in milliseconds. -/
structure Loop where
  backoff : Nat
  health : WsHealth
  waits : List Nat

def Loop.start : Loop := ⟨1, .new, []⟩

def Loop.pause (loop : Loop) (random : Nat) : Loop :=
  { loop with
    backoff := min (loop.backoff * 2) 30
    waits := loop.waits ++ [loop.backoff * 1000 + random % 1000] }

/-- A message that mentions a refused token or a revocation ends the loop. -/
def fatal (message : String) : Bool :=
  Text.contains message "auth_failed" || Text.contains message "revoked"

/-- A connection that ends well resets the backoff, and a fatal error is given back. -/
def Loop.turn (loop : Loop) (attempt : Attempt) : Loop × Option String :=
  let health := attempt.connectedAt.elim loop.health loop.health.markConnected
  match attempt.result with
  | .ok _ =>
      (Loop.pause ⟨1, health.markDisconnected attempt.endedAt, loop.waits⟩ attempt.random, none)
  | .error error =>
      match error with
      | .protocol message =>
          if fatal message then
            ({ loop with health := (health.setError message).markDisconnected attempt.endedAt },
              some message)
          else
            (Loop.pause { loop with
              health := (health.setError error.text).markDisconnected attempt.endedAt }
              attempt.random, none)
      | .other _ =>
          (Loop.pause { loop with
            health := (health.setError error.text).markDisconnected attempt.endedAt }
            attempt.random, none)

def run (loop : Loop) : List Attempt → Loop × Option String
  | [] => (loop, none)
  | attempt :: rest => match loop.turn attempt with
    | (next, none) => run next rest
    | (next, some message) => (next, some message)

end Reconnect

end Daemon
