import SynthHiresBridge.Daemon.WsClient

namespace Daemon

open Json Posix

/-- A connection adds the watchdog of its loop to the client. -/
structure Connection where
  client : WsClient
  expectedHeartbeat : Option Nat
  consecutiveMisses : Nat
  heartbeatIntervalMs : Nat
  live : Bool

/-- The loop wakes for one of these events. An answer in the local dialog and a change by another
program need no connection. -/
inductive Event where
  | frame (moment : Moment) (frame : ServerFrame)
  | deliver (moment : Moment)
  | tick (moment : Moment)
  | localAnswer (actionId : String) (answer : ConsentAnswer)
  | machine (fs : FileSystem)
  | closed
  | connected (scopes : Scopes) (heartbeatIntervalMs : Nat)

def fallbackHeartbeatIntervalMs : Nat := 30000

namespace WsClient

/-- An action has waited for longer than an owner may take. -/
def expired (moment : Moment) (action : ParkedAction) : Bool :=
  decide (consentTimeoutMs < moment.now - action.parkedAt)

def expiredIds (client : WsClient) (moment : Moment) : List String :=
  moment.arrange ((client.parked.entries.filter fun entry => expired moment entry.2).map Sigma.fst)

/-- A swept action leaves the parked ones, and its prompt is answered with a refusal. -/
def dropParked (client : WsClient) (id : String) : WsClient :=
  { client with
    parked := client.parked.erase id
    consent := client.consent.answer id ⟨false, false⟩ }

/-- The sweep drops every action that has waited too long. -/
def sweepExpiredParked (client : WsClient) (moment : Moment) : WsClient :=
  (client.expiredIds moment).foldl dropParked client

/-- A chat push answers its request, or a store error ends the connection. -/
def handleChatPush (client : WsClient) (moment : Moment) (request : ActionRequestFrame) :
    WsClient × Bool :=
  if !client.gate.allows "sync.chat.push" then
    (client.sendError request.id "capability not granted: sync.chat.push", true)
  else match moment.chatPush request.params with
    | .error _ => (client, false)
    | .ok (ok, error, durationMs) =>
        (client.sendActionResult request.id ok none error durationMs, true)

/-- A server frame changes the client, and the flag says whether the connection goes on. -/
def handleFrame (client : WsClient) (host : Host) (moment : Moment) (frame : ServerFrame) :
    WsClient × Bool :=
  match frame with
  | .actionRequest request =>
      if request.capability = "sync.chat.push" then client.handleChatPush moment request
      else (client.handleAction host moment request none, true)
  | .scopeUpdate scopes => ({ client with gate := .ofScopes scopes }, true)
  | .consentResponse response => ({ client with
      consent := client.consent.answer response.id ⟨response.approved, response.remember⟩ }, true)
  | .revoke => (client, false)
  | .heartbeatAck _ | .error _ _ | .ignored => (client, true)

/-- A decision wakes the action parked under its id, and a decision without one is dropped. -/
def resume (client : WsClient) (host : Host) (moment : Moment) : WsClient :=
  match client.consent.notifier with
  | [] => client
  | decision :: rest =>
      let client := { client with consent := { client.consent with notifier := rest } }
      match client.parked.lookup decision.actionId with
      | none => client
      | some action =>
          { client with parked := client.parked.erase decision.actionId }.handleAction host moment
            action.frame (some decision.answer)

end WsClient

namespace Connection

/-- Two consecutive unanswered beats end the connection. -/
def zombieKill (connected : Bool) (consecutiveMisses : Nat) : Bool :=
  connected && decide (2 ≤ consecutiveMisses)

def sendHeartbeat (connection : Connection) (now : Nat) : Connection :=
  { connection with
    client := connection.client.send (.heartbeat ⟨protocolVersion, now⟩)
    expectedHeartbeat := some now }

/-- A tick sweeps the parked actions, judges the last beat and sends the next one. -/
def tick (connection : Connection) (moment : Moment) : Connection :=
  let connection :=
    { connection with client := connection.client.sweepExpiredParked moment }
  match connection.expectedHeartbeat with
  | none => connection.sendHeartbeat moment.now
  | some sentAt =>
      if moment.now - sentAt < connection.heartbeatIntervalMs then connection
      else
        let connection :=
          { connection with consecutiveMisses := connection.consecutiveMisses + 1 }
        if zombieKill true connection.consecutiveMisses then { connection with live := false }
        else connection.sendHeartbeat moment.now

/-- A frame first clears the watchdog when it is an acknowledgement. -/
def receive (connection : Connection) (host : Host) (moment : Moment) (frame : ServerFrame) :
    Connection :=
  let connection := match frame with
    | .heartbeatAck _ => { connection with expectedHeartbeat := none, consecutiveMisses := 0 }
    | _ => connection
  let (client, goesOn) := connection.client.handleFrame host moment frame
  { connection with client := client, live := goesOn }

/-- The first frame of a connection gives the scopes and the cadence. -/
def handshake (connection : Connection) (scopes : Scopes) (heartbeatIntervalMs : Nat) : Connection where
  client := { connection.client with gate := .ofScopes scopes }
  expectedHeartbeat := none
  consecutiveMisses := 0
  heartbeatIntervalMs :=
    if 0 < heartbeatIntervalMs then heartbeatIntervalMs else fallbackHeartbeatIntervalMs
  live := true

/-- One turn of the loop. Frames, decisions and ticks need a live connection. -/
def step (host : Host) (connection : Connection) (event : Event) : Connection :=
  match event with
  | .frame moment frame =>
      if connection.live then connection.receive host moment frame else connection
  | .deliver moment =>
      if connection.live then
        { connection with client := connection.client.resume host moment }
      else connection
  | .tick moment => if connection.live then connection.tick moment else connection
  | .localAnswer actionId answer =>
      { connection with client := { connection.client with
        consent := connection.client.consent.answer actionId answer } }
  | .machine fs => { connection with client := { connection.client with fs := fs } }
  | .closed => { connection with live := false }
  | .connected scopes interval =>
      if connection.live then connection else connection.handshake scopes interval

end Connection

/-- A message of the socket carries a frame, or it ends the connection, or it is passed over. -/
inductive Message where
  | text (frame : ServerFrame)
  | close
  | binary

/-- The messages that have arrived wait in a queue, and the heartbeat interval has a next tick. -/
structure SelectLoop where
  connection : Connection
  inbox : List Message
  nextTick : Nat

/-- A message arrives at any time, also during a long action. The loop takes one other turn at a
time, in any order that the scheduler picks. -/
inductive Turn where
  | arrive (message : Message)
  | read (moment : Moment)
  | deliver (moment : Moment)
  | tick (moment : Moment)
  | localAnswer (actionId : String) (answer : ConsentAnswer)
  | machine (fs : FileSystem)

def Message.event (message : Message) (moment : Moment) : Option Event :=
  match message with
  | .text frame => some (.frame moment frame)
  | .close => some .closed
  | .binary => none

namespace SelectLoop

/-- The first tick of an interval is due at once. -/
def opened (connection : Connection) (scopes : Scopes) (heartbeatIntervalMs openedAt : Nat) :
    SelectLoop :=
  ⟨connection.handshake scopes heartbeatIntervalMs, [], openedAt⟩

def handle (loop : SelectLoop) (host : Host) (event : Event) : SelectLoop :=
  { loop with connection := loop.connection.step host event }

/-- A tick that comes late leaves the later ones at their times, so they come in a burst. -/
def step (host : Host) (loop : SelectLoop) (turn : Turn) : SelectLoop :=
  if !loop.connection.live then loop
  else match turn with
    | .arrive message => { loop with inbox := loop.inbox ++ [message] }
    | .read moment => match loop.inbox with
        | [] => loop
        | message :: rest =>
            let loop := { loop with inbox := rest }
            match message.event moment with
            | none => loop
            | some event => loop.handle host event
    | .deliver moment => loop.handle host (.deliver moment)
    | .tick moment =>
        if moment.now < loop.nextTick then loop
        else { loop with nextTick := loop.nextTick + loop.connection.heartbeatIntervalMs }.handle
          host (.tick moment)
    | .localAnswer actionId answer => loop.handle host (.localAnswer actionId answer)
    | .machine fs => loop.handle host (.machine fs)

end SelectLoop

end Daemon
