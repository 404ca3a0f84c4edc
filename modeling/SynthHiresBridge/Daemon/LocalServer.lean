import SynthHiresBridge.Daemon.DeepLink
import SynthHiresBridge.Data.Table
import SynthHiresBridge.Transition.Run

namespace Daemon

/-- The pairing that `state.json` holds. -/
structure DaemonState where
  deviceId : Option String
  backendUrl : Option String
  deriving DecidableEq

def DaemonState.unpaired : DaemonState := ⟨none, none⟩

namespace LocalServer

/-- A header is missing here when its value is not visible ASCII text. -/
structure Headers where
  origin : Option String
  host : Option String

structure PairRequest where
  token : String
  backendUrl : String
  nonce : String
  deviceId : Option String

inductive Request where
  | status
  | pair (payload : PairRequest)
  | unpair (nonce : String)
  | shutdown (nonce : String)

structure Refusal where
  status : Nat
  message : String
  deriving DecidableEq

inductive Answer where
  | refused (refusal : Refusal)
  | status (paired : Bool) (nonce : String) (deviceId : Option String)
  | paired
  | unpaired
  | shuttingDown
  deriving DecidableEq

def digitsAfter (known : String) (origin : List Char) : Bool :=
  (Text.stripPrefix known.toList origin).any fun rest => rest.all Char.isDigit

def isAllowedOrigin (origin : String) : Bool :=
  origin = "https://synthhires.com" || digitsAfter "http://localhost:" origin.toList ||
    digitsAfter "http://127.0.0.1:" origin.toList

def checkOrigin (headers : Headers) : Except Refusal Unit :=
  if isAllowedOrigin (headers.origin.getD "") then .ok () else .error ⟨403, "Invalid Origin"⟩

def checkHost (headers : Headers) (port : Nat) : Except Refusal Unit :=
  let host := Text.lower ((headers.host.getD "").toList.rdropWhile (· = '.'))
  if host = ("127.0.0.1:" ++ toString port).toList ∨ host = ("localhost:" ++ toString port).toList then
    .ok ()
  else .error ⟨403, "Invalid Host"⟩

def checkLocal (headers : Headers) (port : Nat) : Except Refusal Unit := do
  checkOrigin headers
  checkHost headers port

/-- A handler stands before the next stretch that it runs under one lock. -/
inductive Phase where
  | statusPaired
  | statusMint (paired : Bool)
  | statusDevice (paired : Bool) (nonce : String)
  | pairPaired (payload : PairRequest)
  | pairNonce (payload : PairRequest)
  | pairSave (payload : PairRequest)
  | pairWrite (payload : PairRequest) (deviceId : String)
  | pairStart (payload : PairRequest)
  | unpairNonce (nonce : String)
  | unpairRead
  | unpairDelete (deviceId : Option String)
  | unpairClear
  | unpairStop
  | unpairMint
  | shutdownNonce (nonce : String)

def Request.first : Request → Phase
  | .status => .statusPaired
  | .pair payload => .pairPaired payload
  | .unpair nonce => .unpairNonce nonce
  | .shutdown nonce => .shutdownNonce nonce

/-- What happened is recorded for the statements about runs, and no handler reads it. -/
inductive Happening where
  | minted (nonce : String) (moment : Nat)
  | accepted (nonce : String) (moment : Nat)
  | foundPaired (request : Nat)
  | tokenSaved (request : Nat)
  | stateWritten (request : Nat)
  | clientStarted (request : Nat)
  | answered (request : Nat) (answer : Answer)
  deriving DecidableEq

/-- A save of the state may fail with the old file kept or with a file that is cut off. -/
inductive SaveOutcome where
  | written
  | kept
  | torn

/-- The clock counts nanoseconds, and handlers are known by the order of their requests. -/
structure ServerState where
  daemonState : DaemonState
  stateFile : Option DaemonState
  pairingNonce : Option (String × Nat)
  wsHandle : Option (Nat × String)
  tokens : Table String String
  localPort : Nat
  now : Nat
  exitAt : Option Nat
  arrived : Nat
  inFlight : Table Nat Phase
  history : List Happening

namespace ServerState

def nonceTtl : Nat := 120 * 10 ^ 9

def isPaired (server : ServerState) : Bool :=
  server.daemonState.deviceId.isSome

def note (server : ServerState) (happening : Happening) : ServerState :=
  { server with history := server.history ++ [happening] }

def go (server : ServerState) (id : Nat) (phase : Phase) : ServerState :=
  { server with inFlight := server.inFlight.insert id phase }

def answer (server : ServerState) (id : Nat) (answer : Answer) : ServerState :=
  { server.note (.answered id answer) with inFlight := server.inFlight.erase id }

/-- A new value replaces the nonce that was held. -/
def replaceNonce (server : ServerState) (fresh : String) : ServerState :=
  { server.note (.minted fresh server.now) with pairingNonce := some (fresh, server.now) }

def takeNonce (server : ServerState) (presented : String) : Except Refusal ServerState :=
  match server.pairingNonce with
  | some (value, created) =>
      if value = presented ∧ server.now - created ≤ nonceTtl then
        .ok { server.note (.accepted value server.now) with pairingNonce := none }
      else .error ⟨403, "Invalid nonce"⟩
  | none => .error ⟨403, "Invalid nonce"⟩

def mintNonce (server : ServerState) (fresh : String) : String × ServerState :=
  match server.pairingNonce with
  | some (value, created) =>
      if server.now - created ≤ nonceTtl then (value, server)
      else (fresh, server.replaceNonce fresh)
  | none => (fresh, server.replaceNonce fresh)

def save (server : ServerState) (outcome : SaveOutcome) : ServerState :=
  match outcome with
  | .written => { server with stateFile := some server.daemonState }
  | .kept => server
  | .torn => { server with stateFile := none }

/-- The device of a pairing must be named, since its token is stored under that name. -/
def pairSave (server : ServerState) (id : Nat) (payload : PairRequest) (keyringHolds : Bool) :
    ServerState :=
  match validateBackendUrl payload.backendUrl with
  | .error _ => server.answer id (.refused ⟨400, "Invalid backend_url"⟩)
  | .ok () =>
      match payload.deviceId.filter fun device => Text.trim device ≠ "" with
      | none => server.answer id (.refused ⟨400, "Missing device_id"⟩)
      | some device =>
          if keyringHolds then
            let tokens := server.tokens.insert device payload.token
            ({ server with tokens }.note (.tokenSaved id)).go id (.pairWrite payload device)
          else server.answer id (.refused ⟨500, "Failed to save token to keyring"⟩)

def pairWrite (server : ServerState) (id : Nat) (payload : PairRequest) (device : String)
    (outcome : SaveOutcome) : ServerState :=
  let daemonState := ⟨some device, some payload.backendUrl⟩
  (({ server with daemonState }.save outcome).note (.stateWritten id)).go id (.pairStart payload)

/-- The client of an earlier pairing is aborted when the new one starts. -/
def pairStart (server : ServerState) (id : Nat) (payload : PairRequest) : ServerState :=
  ({ server with wsHandle := some (id, payload.backendUrl) }.note (.clientStarted id)).answer id
    .paired

def unpairClear (server : ServerState) (id : Nat) (outcome : SaveOutcome) : ServerState :=
  ({ server with daemonState := .unpaired }.save outcome).go id .unpairStop

/-- A nonce is taken before the handler goes on. -/
def pastNonce (server : ServerState) (id : Nat) (presented : String)
    (next : ServerState → ServerState) : ServerState :=
  match server.takeNonce presented with
  | .error refusal => server.answer id (.refused refusal)
  | .ok taken => next taken

/-- What the world answers to one stretch of a handler. -/
structure World where
  fresh : String
  keyringHolds : Bool
  outcome : SaveOutcome

def advance (server : ServerState) (id : Nat) (world : World) : Phase → ServerState
  | .statusPaired => server.go id (.statusMint server.isPaired)
  | .statusMint paired =>
      let minted := server.mintNonce world.fresh
      minted.2.go id (.statusDevice paired minted.1)
  | .statusDevice paired nonce =>
      server.answer id (.status paired nonce server.daemonState.deviceId)
  | .pairPaired payload =>
      if server.isPaired then
        (server.note (.foundPaired id)).answer id (.refused ⟨409, "Already paired"⟩)
      else server.go id (.pairNonce payload)
  | .pairNonce payload => server.pastNonce id payload.nonce fun taken => taken.go id (.pairSave payload)
  | .pairSave payload => server.pairSave id payload world.keyringHolds
  | .pairWrite payload device => server.pairWrite id payload device world.outcome
  | .pairStart payload => server.pairStart id payload
  | .unpairNonce nonce => server.pastNonce id nonce fun taken => taken.go id .unpairRead
  | .unpairRead => server.go id (.unpairDelete server.daemonState.deviceId)
  | .unpairDelete device =>
      let tokens := device.elim server.tokens server.tokens.erase
      { server with tokens }.go id .unpairClear
  | .unpairClear => server.unpairClear id world.outcome
  | .unpairStop => { server with wsHandle := none }.go id .unpairMint
  | .unpairMint => (server.replaceNonce world.fresh).answer id .unpaired
  | .shutdownNonce nonce =>
      server.pastNonce id nonce fun taken =>
        { taken with exitAt := some (taken.now + 200 * 10 ^ 6) }.answer id .shuttingDown

inductive Event where
  | passes (nanos : Nat)
  | arrive (headers : Headers) (request : Request)
  | advance (id : Nat) (world : World)

def exited (server : ServerState) : Bool :=
  server.exitAt.any fun moment => decide (moment ≤ server.now)

def arrive (server : ServerState) (headers : Headers) (request : Request) : ServerState :=
  let counted := { server with arrived := server.arrived + 1 }
  match checkLocal headers server.localPort with
  | .error refusal => counted.answer server.arrived (.refused refusal)
  | .ok () => counted.go server.arrived request.first

def step (server : ServerState) (event : Event) : ServerState :=
  if server.exited then server
  else
    match event with
    | .passes nanos => { server with now := server.now + nanos }
    | .arrive headers request => server.arrive headers request
    | .advance id world =>
        match server.inFlight.lookup id with
        | none => server
        | some phase => server.advance id world phase

/-- A daemon that starts unpaired mints a nonce before it listens. -/
def startHttpServer (daemonState : DaemonState) (tokens : Table String String)
    (wsHandle : Option (Nat × String)) (port : Nat) (fresh : String) : ServerState :=
  let bound : ServerState :=
    { daemonState, stateFile := some daemonState, pairingNonce := none, wsHandle, tokens,
      localPort := port, now := 0, exitAt := none, arrived := 0, inFlight := ∅, history := [] }
  if bound.isPaired then bound else bound.replaceNonce fresh

end ServerState

end LocalServer

end Daemon
