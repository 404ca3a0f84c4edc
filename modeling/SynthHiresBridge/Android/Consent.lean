import SynthHiresBridge.Android.Protocol
import SynthHiresBridge.Transition.Run

namespace Android

open Json

/-- A request waits with its socket, and its ticket tells it from requests with the same id. -/
structure Pending where
  ticket : Nat
  ws : Nat
  frame : ActionRequest

/-- The dialog of an activity shows the capability of the request that it read. -/
structure Dialog where
  message : String
  shown : Pending

/-- The buttons are Denegar, Permitir and Permitir siempre, and a cancel denies. -/
inductive Button where
  | deny
  | allow
  | allowAlways
  | cancel
  deriving DecidableEq

def Button.approved : Button → Bool
  | .deny => false
  | .allow => true
  | .allowAlways => true
  | .cancel => false

def Button.remember : Button → Bool
  | .deny => false
  | .allow => false
  | .allowAlways => true
  | .cancel => false

/-- The main thread answers a tap in steps, and other threads may run between them. -/
inductive Stage where
  | read
  | respond (request : Pending)
  | act (request : Pending)
  | clear (request : Pending)
  | finish (request : Option Pending)

structure Answering where
  dialog : Dialog
  button : Button
  stage : Stage

inductive Happening where
  | response (ws : Nat) (frame : ConsentResponse) (dialog : Dialog)
  | dispatched (request : Pending) (dialog : Option Dialog)
  | result (request : Pending) (frame : ActionResult)
  | answered (dialog : Dialog) (button : Button) (request : Option Pending)

/-- A capability handler gives its output or fails with a message. -/
structure Outcome where
  output : Except String (Option Value)
  durationMs : Int64

/-- The phone holds the stored scopes, the coroutines that handle a frame and those that are about
to start the activity, the slot of the consent activity with its intents and dialogs, what the main
thread does, and the jobs of the executor. -/
structure Phone where
  capabilities : Option (List String)
  handling : List Pending
  starting : List Pending
  pending : Option Pending
  intents : Nat
  dialogs : List Dialog
  main : Option Answering
  running : List Pending
  arrived : Nat
  history : List Happening

def Phone.start (capabilities : Option (List String)) : Phone :=
  ⟨capabilities, [], [], none, 0, [], none, [], 0, []⟩

def requiresNativeConsent (capability : String) : Bool :=
  ["mobile.sms.send", "mobile.notifications.dismiss", "mobile.clipboard.write",
    "mobile.automation.perform"].contains capability

/-- The owner, the system, the executor and the threads take turns. -/
inductive PhoneEvent where
  | actionRequest (ws : Nat) (frame : ActionRequest)
  | scopeUpdate (scopes : BridgeScopes)
  | handle (place : Nat)
  | startActivity (place : Nat)
  | create
  | reuse
  | tap (place : Nat) (button : Button)
  | answer
  | complete (place : Nat) (outcome : Outcome)

namespace Phone

def note (phone : Phone) (happening : Happening) : Phone :=
  { phone with history := phone.history ++ [happening] }

def capabilitiesAllow (phone : Phone) (capability : String) : Bool :=
  phone.capabilities.any fun held => held.contains capability

def sendResult (phone : Phone) (request : Pending) (ok : Bool) (output : Option Value)
    (error : Option ActionError) (durationMs : Int64) : Phone :=
  phone.note (.result request ⟨protocolVersion, request.frame.id, ok, output, error, durationMs⟩)

/-- The executor runs every job that it is given. -/
def dispatch (phone : Phone) (request : Pending) (dialog : Option Dialog) : Phone :=
  { phone with running := phone.running ++ [request] }.note (.dispatched request dialog)

/-- `ConsentActivity.request` fills the slot before it starts the activity. -/
def request (phone : Phone) (request : Pending) : Phone :=
  { phone with pending := some request, starting := phone.starting ++ [request] }

/-- A coroutine handles the request that it was launched for. -/
def handleAction (phone : Phone) (request : Pending) : Phone :=
  if !phone.capabilitiesAllow request.frame.capability then
    phone.sendResult request false none (some ⟨"action_failed", "capability_not_granted"⟩) 0
  else if requiresNativeConsent request.frame.capability then phone.request request
  else phone.dispatch request none

def message (request : Pending) : String :=
  request.frame.capability ++ "\n\nAcción solicitada por el agente"

/-- A new activity shows a dialog for the request in the slot, or it finishes. -/
def onCreate (phone : Phone) : Phone :=
  match phone.pending with
  | none => phone
  | some request => { phone with dialogs := phone.dialogs ++ [⟨message request, request⟩] }

/-- A denied request gets its result at once. -/
def act (phone : Phone) (dialog : Dialog) (button : Button) (request : Pending) : Phone :=
  if button.approved then phone.dispatch request (some dialog)
  else phone.sendResult request false none
    (some ⟨"consent_denied", "El usuario denegó la acción"⟩) 0

/-- One step of `answer` on the main thread. -/
def advance (phone : Phone) (answering : Answering) : Phone :=
  let dialog := answering.dialog
  let button := answering.button
  match answering.stage with
  | .read =>
      let next := match phone.pending with
        | none => .finish none
        | some request => .respond request
      { phone with main := some ⟨dialog, button, next⟩ }
  | .respond request =>
      { phone with main := some ⟨dialog, button, .act request⟩ }.note
        (.response request.ws
          ⟨protocolVersion, request.frame.id, button.approved, button.remember⟩ dialog)
  | .act request =>
      { phone with main := some ⟨dialog, button, .clear request⟩ }.act dialog button request
  | .clear request =>
      { phone with pending := none, main := some ⟨dialog, button, .finish (some request)⟩ }
  | .finish request =>
      { phone with main := none }.note (.answered dialog button request)

/-- The end of a job is its result. -/
def complete (phone : Phone) (request : Pending) (outcome : Outcome) : Phone :=
  match outcome.output with
  | .ok output => phone.sendResult request true output none outcome.durationMs
  | .error text =>
      phone.sendResult request false none (some ⟨"action_failed", text⟩) outcome.durationMs

/-- The system may hand an intent to the activity on top, which ignores it, and the main thread
does one thing at a time. -/
def step (phone : Phone) : PhoneEvent → Phone
  | .actionRequest ws frame =>
      { phone with
        arrived := phone.arrived + 1
        handling := phone.handling ++ [⟨phone.arrived, ws, frame⟩] }
  | .scopeUpdate scopes => { phone with capabilities := some scopes.capabilities }
  | .handle place => match phone.handling[place]? with
      | none => phone
      | some request =>
          { phone with handling := phone.handling.eraseIdx place }.handleAction request
  | .startActivity place => match phone.starting[place]? with
      | none => phone
      | some _ =>
          { phone with
            starting := phone.starting.eraseIdx place
            intents := phone.intents + 1 }
  | .create =>
      if phone.intents = 0 ∨ phone.main.isSome then phone
      else { phone with intents := phone.intents - 1 }.onCreate
  | .reuse =>
      if phone.intents = 0 ∨ (phone.dialogs.isEmpty ∧ phone.main.isNone) then phone
      else { phone with intents := phone.intents - 1 }
  | .tap place button => match phone.main, phone.dialogs[place]? with
      | none, some dialog =>
          { phone with
            dialogs := phone.dialogs.eraseIdx place
            main := some ⟨dialog, button, .read⟩ }
      | _, _ => phone
  | .answer => match phone.main with
      | none => phone
      | some answering => phone.advance answering
  | .complete place outcome => match phone.running[place]? with
      | none => phone
      | some request =>
          { phone with running := phone.running.eraseIdx place }.complete request outcome

end Phone

end Android
