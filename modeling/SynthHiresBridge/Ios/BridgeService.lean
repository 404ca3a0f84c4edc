import SynthHiresBridge.Data.JsonRecord
import SynthHiresBridge.Transition.Run

namespace Ios

open Json

def bridgeProtocolVersion : Int := 1

structure BridgeScopes where
  capabilities : List String
  alwaysAllowPaths : List String

structure ActionError where
  code : String
  message : String

structure ActionRequestFrame where
  v : Int
  kind : String
  id : String
  capability : String
  params : List (String × Value)
  conversationId : Option String
  skipConsentPrompt : Bool

structure ActionResultFrame where
  v : Int
  id : String
  ok : Bool
  output : Option Value
  error : Option ActionError
  durationMs : UInt64

structure ConsentResponseFrame where
  v : Int
  id : String
  approved : Bool
  remember : Bool

/-- The ticket of a request tells it from requests with the same id. -/
structure Action where
  ticket : Nat
  frame : ActionRequestFrame

/-- `perform` gives its output or throws. -/
structure Outcome where
  output : Except String Value
  duration : UInt64

inductive Happening where
  | response (action : Action) (frame : ConsentResponseFrame) (shown : Action)
  | performed (action : Action) (shown : Option Action)
  | result (action : Action) (frame : ActionResultFrame)

/-- The service holds the stored scopes and the action that waits for consent, and the alert shows
what it was rendered with. -/
structure BridgeService where
  capabilities : List String
  pendingConsent : Option Action
  alert : Option Action
  arrived : Nat
  history : List Happening

/-- The main actor takes one event at a time. -/
inductive ServiceEvent where
  | actionRequest (frame : ActionRequestFrame) (outcome : Outcome)
  | scopeUpdate (scopes : BridgeScopes)
  | render
  | tap (approved remember : Bool) (outcome : Outcome)

def needsConsent (frame : ActionRequestFrame) : Bool :=
  frame.capability == "mobile.clipboard.write" || frame.capability == "mobile.sms.send"

namespace BridgeService

def start (capabilities : List String) : BridgeService := ⟨capabilities, none, none, 0, []⟩

def note (service : BridgeService) (happening : Happening) : BridgeService :=
  { service with history := service.history ++ [happening] }

def resultFrame (id : String) (ok : Bool) (output : Option Value) (error : Option String)
    (duration : UInt64) : ActionResultFrame :=
  ⟨bridgeProtocolVersion, id, ok, output, error.map fun text => ⟨"action_failed", text⟩, duration⟩

def sendResult (service : BridgeService) (action : Action) (ok : Bool) (output : Option Value)
    (error : Option String) (duration : UInt64) : BridgeService :=
  service.note (.result action (resultFrame action.frame.id ok output error duration))

/-- A performed action gets its result at once. -/
def perform (service : BridgeService) (action : Action) (shown : Option Action)
    (outcome : Outcome) : BridgeService :=
  match outcome.output with
  | .ok output =>
      (service.note (.performed action shown)).sendResult action true (some output) none
        outcome.duration
  | .error text =>
      (service.note (.performed action shown)).sendResult action false none (some text)
        outcome.duration

/-- The consent is approved where an alert was answered. -/
def handle (service : BridgeService) (action : Action) (shown : Option Action)
    (outcome : Outcome) : BridgeService :=
  if !service.capabilities.contains action.frame.capability then
    service.sendResult action false none (some "capability_not_granted") 0
  else if needsConsent action.frame && !action.frame.skipConsentPrompt && !shown.isSome then
    { service with pendingConsent := some action }
  else service.perform action shown outcome

def approveConsent (service : BridgeService) (shown : Action) (approved remember : Bool)
    (outcome : Outcome) : BridgeService :=
  match service.pendingConsent with
  | none => service
  | some action =>
      let response : ConsentResponseFrame :=
        ⟨bridgeProtocolVersion, action.frame.id, approved, remember⟩
      let answered := { service with pendingConsent := none }.note (.response action response shown)
      if !approved then answered.sendResult action false none (some "consent_denied") 0
      else answered.handle action (some shown) outcome

/-- Only an alert on screen takes a tap. -/
def step (service : BridgeService) : ServiceEvent → BridgeService
  | .actionRequest frame outcome =>
      { service with arrived := service.arrived + 1 }.handle ⟨service.arrived, frame⟩ none outcome
  | .scopeUpdate scopes => { service with capabilities := scopes.capabilities }
  | .render => { service with alert := service.pendingConsent }
  | .tap approved remember outcome => match service.alert with
      | none => service
      | some shown => service.approveConsent shown approved remember outcome

end BridgeService

end Ios
