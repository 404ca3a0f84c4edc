import SynthHiresBridge.Data.JsonRecord

namespace Android

open Json

def protocolVersion : Int32 := 1

structure BridgeScopes where
  capabilities : List String
  alwaysAllowPaths : List String

structure ActionError where
  code : String
  message : String

structure Hello where
  v : Int32
  tokenHash : String
  fingerprint : String
  deviceKind : String
  deviceName : String
  clientVersion : String
  os : String
  arch : String

structure HelloAck where
  v : Int32
  deviceId : String
  scopes : BridgeScopes
  heartbeatIntervalMs : Int64

structure Heartbeat where
  v : Int32
  t : Int64

structure HeartbeatAck where
  v : Int32
  t : Int64

structure ActionRequest where
  v : Int32
  id : String
  capability : String
  params : List (String × Value)
  conversationId : Option String
  skipConsentPrompt : Bool

structure ActionResult where
  v : Int32
  id : String
  ok : Bool
  output : Option Value
  error : Option ActionError
  durationMs : Int64

structure ActionStream where
  v : Int32
  id : String
  seq : Int64
  channel : String
  data : String
  eof : Bool

structure ConsentPrompt where
  v : Int32
  id : String
  capability : String
  summary : String
  paramsHash : String

structure ConsentResponse where
  v : Int32
  id : String
  approved : Bool
  remember : Bool

structure ScopeUpdate where
  v : Int32
  scopes : BridgeScopes
  reason : Option String

structure Resume where
  v : Int32
  deviceId : String

structure Revoke where
  v : Int32
  reason : String

structure Error where
  v : Int32
  code : String
  message : String
  close : Option Int32

inductive BridgeFrame where
  | hello (frame : Hello)
  | helloAck (frame : HelloAck)
  | heartbeat (frame : Heartbeat)
  | heartbeatAck (frame : HeartbeatAck)
  | actionRequest (frame : ActionRequest)
  | actionResult (frame : ActionResult)
  | actionStream (frame : ActionStream)
  | consentPrompt (frame : ConsentPrompt)
  | consentResponse (frame : ConsentResponse)
  | scopeUpdate (frame : ScopeUpdate)
  | resume (frame : Resume)
  | revoke (frame : Revoke)
  | error (frame : Error)

def int32 (value : Int32) : Value := .ofInt value.toInt

def int64 (value : Int64) : Value := .ofInt value.toInt

def asInt32 (value : Value) : Option Int32 := (value.asInt (2 ^ 31)).map Int32.ofInt

def asInt64 (value : Value) : Option Int64 := (value.asInt (2 ^ 63)).map Int64.ofInt

def strings (texts : List String) : Value := .array (texts.map Value.string)

/-- `encodeDefaults` is not set, so a property that has its default is left out. -/
def unlessDefault {α : Type} [DecidableEq α] (default : α) (write : α → Value) (value : α) :
    Option Value :=
  if value = default then none else some (write value)

/-- `ignoreUnknownKeys` is set, so an object is read by the names of its properties. -/
def readProperties {α : Type} (names : List String) (read : List (Option Value) → Option α) :
    Value → Option α
  | .object entries => read (names.map fun name => entries.lookup name)
  | _ => none

def BridgeScopes.properties (scopes : BridgeScopes) : List (String × Option Value) :=
  [("capabilities", unlessDefault [] strings scopes.capabilities),
    ("alwaysAllowPaths", unlessDefault [] strings scopes.alwaysAllowPaths)]

def BridgeScopes.ofValue : Value → Option BridgeScopes :=
  readProperties ["capabilities", "alwaysAllowPaths"] fun
    | [capabilities, alwaysAllowPaths] => do
        return ⟨← Value.defaulted [] (Value.listOf Value.asStr) capabilities,
          ← Value.defaulted [] (Value.listOf Value.asStr) alwaysAllowPaths⟩
    | _ => none

def ActionError.properties (error : ActionError) : List (String × Option Value) :=
  [("code", some (.string error.code)), ("message", some (.string error.message))]

def ActionError.ofValue : Value → Option ActionError :=
  readProperties ["code", "message"] fun
    | [code, message] => do return ⟨← code.bind Value.asStr, ← message.bind Value.asStr⟩
    | _ => none

def Hello.properties (frame : Hello) : List (String × Option Value) :=
  [("v", unlessDefault protocolVersion int32 frame.v), ("tokenHash", some (.string frame.tokenHash)),
    ("fingerprint", some (.string frame.fingerprint)),
    ("deviceKind", unlessDefault "mobile" Value.string frame.deviceKind),
    ("deviceName", some (.string frame.deviceName)),
    ("clientVersion", some (.string frame.clientVersion)),
    ("os", unlessDefault "android" Value.string frame.os),
    ("arch", unlessDefault "" Value.string frame.arch)]

def Hello.ofValue : Value → Option Hello :=
  readProperties ["v", "tokenHash", "fingerprint", "deviceKind", "deviceName", "clientVersion",
      "os", "arch"] fun
    | [v, tokenHash, fingerprint, deviceKind, deviceName, clientVersion, os, arch] => do
        return ⟨← Value.defaulted protocolVersion asInt32 v, ← tokenHash.bind Value.asStr,
          ← fingerprint.bind Value.asStr, ← Value.defaulted "mobile" Value.asStr deviceKind,
          ← deviceName.bind Value.asStr, ← clientVersion.bind Value.asStr,
          ← Value.defaulted "android" Value.asStr os, ← Value.defaulted "" Value.asStr arch⟩
    | _ => none

def HelloAck.properties (frame : HelloAck) : List (String × Option Value) :=
  [("v", unlessDefault protocolVersion int32 frame.v), ("deviceId", some (.string frame.deviceId)),
    ("scopes", some (.object (written frame.scopes.properties))),
    ("heartbeatIntervalMs", some (int64 frame.heartbeatIntervalMs))]

def HelloAck.ofValue : Value → Option HelloAck :=
  readProperties ["v", "deviceId", "scopes", "heartbeatIntervalMs"] fun
    | [v, deviceId, scopes, heartbeatIntervalMs] => do
        return ⟨← Value.defaulted protocolVersion asInt32 v, ← deviceId.bind Value.asStr,
          ← scopes.bind BridgeScopes.ofValue, ← heartbeatIntervalMs.bind asInt64⟩
    | _ => none

def Heartbeat.properties (frame : Heartbeat) : List (String × Option Value) :=
  [("v", unlessDefault protocolVersion int32 frame.v), ("t", some (int64 frame.t))]

def Heartbeat.ofValue : Value → Option Heartbeat :=
  readProperties ["v", "t"] fun
    | [v, t] => do return ⟨← Value.defaulted protocolVersion asInt32 v, ← t.bind asInt64⟩
    | _ => none

def HeartbeatAck.properties (frame : HeartbeatAck) : List (String × Option Value) :=
  [("v", unlessDefault protocolVersion int32 frame.v), ("t", some (int64 frame.t))]

def HeartbeatAck.ofValue : Value → Option HeartbeatAck :=
  readProperties ["v", "t"] fun
    | [v, t] => do return ⟨← Value.defaulted protocolVersion asInt32 v, ← t.bind asInt64⟩
    | _ => none

def ActionRequest.properties (frame : ActionRequest) : List (String × Option Value) :=
  [("v", unlessDefault protocolVersion int32 frame.v), ("id", some (.string frame.id)),
    ("capability", some (.string frame.capability)), ("params", some (.object frame.params)),
    ("conversationId", frame.conversationId.map Value.string),
    ("skipConsentPrompt", unlessDefault false Value.bool frame.skipConsentPrompt)]

def ActionRequest.ofValue : Value → Option ActionRequest :=
  readProperties ["v", "id", "capability", "params", "conversationId", "skipConsentPrompt"] fun
    | [v, id, capability, params, conversationId, skipConsentPrompt] => do
        return ⟨← Value.defaulted protocolVersion asInt32 v, ← id.bind Value.asStr,
          ← capability.bind Value.asStr, ← params.bind Value.asObject,
          ← Value.optional Value.asStr conversationId,
          ← Value.defaulted false Value.asBool skipConsentPrompt⟩
    | _ => none

def ActionResult.properties (frame : ActionResult) : List (String × Option Value) :=
  [("v", unlessDefault protocolVersion int32 frame.v), ("id", some (.string frame.id)),
    ("ok", some (.bool frame.ok)), ("output", frame.output),
    ("error", frame.error.map fun error => .object (written error.properties)),
    ("durationMs", unlessDefault 0 int64 frame.durationMs)]

/-- A null stands for no element where the property may have none. -/
def ActionResult.ofValue : Value → Option ActionResult :=
  readProperties ["v", "id", "ok", "output", "error", "durationMs"] fun
    | [v, id, ok, output, error, durationMs] => do
        return ⟨← Value.defaulted protocolVersion asInt32 v, ← id.bind Value.asStr,
          ← ok.bind Value.asBool, ← Value.optional some output,
          ← Value.optional ActionError.ofValue error, ← Value.defaulted 0 asInt64 durationMs⟩
    | _ => none

def ActionStream.properties (frame : ActionStream) : List (String × Option Value) :=
  [("v", unlessDefault protocolVersion int32 frame.v), ("id", some (.string frame.id)),
    ("seq", some (int64 frame.seq)), ("channel", some (.string frame.channel)),
    ("data", some (.string frame.data)), ("eof", unlessDefault false Value.bool frame.eof)]

def ActionStream.ofValue : Value → Option ActionStream :=
  readProperties ["v", "id", "seq", "channel", "data", "eof"] fun
    | [v, id, seq, channel, data, eof] => do
        return ⟨← Value.defaulted protocolVersion asInt32 v, ← id.bind Value.asStr,
          ← seq.bind asInt64, ← channel.bind Value.asStr, ← data.bind Value.asStr,
          ← Value.defaulted false Value.asBool eof⟩
    | _ => none

def ConsentPrompt.properties (frame : ConsentPrompt) : List (String × Option Value) :=
  [("v", unlessDefault protocolVersion int32 frame.v), ("id", some (.string frame.id)),
    ("capability", some (.string frame.capability)), ("summary", some (.string frame.summary)),
    ("paramsHash", some (.string frame.paramsHash))]

def ConsentPrompt.ofValue : Value → Option ConsentPrompt :=
  readProperties ["v", "id", "capability", "summary", "paramsHash"] fun
    | [v, id, capability, summary, paramsHash] => do
        return ⟨← Value.defaulted protocolVersion asInt32 v, ← id.bind Value.asStr,
          ← capability.bind Value.asStr, ← summary.bind Value.asStr, ← paramsHash.bind Value.asStr⟩
    | _ => none

def ConsentResponse.properties (frame : ConsentResponse) : List (String × Option Value) :=
  [("v", unlessDefault protocolVersion int32 frame.v), ("id", some (.string frame.id)),
    ("approved", some (.bool frame.approved)), ("remember", some (.bool frame.remember))]

def ConsentResponse.ofValue : Value → Option ConsentResponse :=
  readProperties ["v", "id", "approved", "remember"] fun
    | [v, id, approved, remember] => do
        return ⟨← Value.defaulted protocolVersion asInt32 v, ← id.bind Value.asStr,
          ← approved.bind Value.asBool, ← remember.bind Value.asBool⟩
    | _ => none

def ScopeUpdate.properties (frame : ScopeUpdate) : List (String × Option Value) :=
  [("v", unlessDefault protocolVersion int32 frame.v),
    ("scopes", some (.object (written frame.scopes.properties))),
    ("reason", frame.reason.map Value.string)]

def ScopeUpdate.ofValue : Value → Option ScopeUpdate :=
  readProperties ["v", "scopes", "reason"] fun
    | [v, scopes, reason] => do
        return ⟨← Value.defaulted protocolVersion asInt32 v, ← scopes.bind BridgeScopes.ofValue,
          ← Value.optional Value.asStr reason⟩
    | _ => none

def Resume.properties (frame : Resume) : List (String × Option Value) :=
  [("v", unlessDefault protocolVersion int32 frame.v), ("deviceId", some (.string frame.deviceId))]

def Resume.ofValue : Value → Option Resume :=
  readProperties ["v", "deviceId"] fun
    | [v, deviceId] => do
        return ⟨← Value.defaulted protocolVersion asInt32 v, ← deviceId.bind Value.asStr⟩
    | _ => none

def Revoke.properties (frame : Revoke) : List (String × Option Value) :=
  [("v", unlessDefault protocolVersion int32 frame.v), ("reason", some (.string frame.reason))]

def Revoke.ofValue : Value → Option Revoke :=
  readProperties ["v", "reason"] fun
    | [v, reason] => do
        return ⟨← Value.defaulted protocolVersion asInt32 v, ← reason.bind Value.asStr⟩
    | _ => none

def Error.properties (frame : Error) : List (String × Option Value) :=
  [("v", unlessDefault protocolVersion int32 frame.v), ("code", some (.string frame.code)),
    ("message", some (.string frame.message)), ("close", frame.close.map int32)]

def Error.ofValue : Value → Option Error :=
  readProperties ["v", "code", "message", "close"] fun
    | [v, code, message, close] => do
        return ⟨← Value.defaulted protocolVersion asInt32 v, ← code.bind Value.asStr,
          ← message.bind Value.asStr, ← Value.optional asInt32 close⟩
    | _ => none

namespace BridgeFrame

def serialName : BridgeFrame → String
  | .hello _ => "hello"
  | .helloAck _ => "hello_ack"
  | .heartbeat _ => "heartbeat"
  | .heartbeatAck _ => "heartbeat_ack"
  | .actionRequest _ => "action_request"
  | .actionResult _ => "action_result"
  | .actionStream _ => "action_stream"
  | .consentPrompt _ => "consent_prompt"
  | .consentResponse _ => "consent_response"
  | .scopeUpdate _ => "scope_update"
  | .resume _ => "resume"
  | .revoke _ => "revoke"
  | .error _ => "error"

def properties : BridgeFrame → List (String × Option Value)
  | .hello frame => frame.properties
  | .helloAck frame => frame.properties
  | .heartbeat frame => frame.properties
  | .heartbeatAck frame => frame.properties
  | .actionRequest frame => frame.properties
  | .actionResult frame => frame.properties
  | .actionStream frame => frame.properties
  | .consentPrompt frame => frame.properties
  | .consentResponse frame => frame.properties
  | .scopeUpdate frame => frame.properties
  | .resume frame => frame.properties
  | .revoke frame => frame.properties
  | .error frame => frame.properties

/-- The class discriminator comes first. -/
def encodeToString (frame : BridgeFrame) : Value :=
  .object (("kind", .string frame.serialName) :: written frame.properties)

def ofSerialName : String → Value → Option BridgeFrame
  | "hello", value => (Hello.ofValue value).map .hello
  | "hello_ack", value => (HelloAck.ofValue value).map .helloAck
  | "heartbeat", value => (Heartbeat.ofValue value).map .heartbeat
  | "heartbeat_ack", value => (HeartbeatAck.ofValue value).map .heartbeatAck
  | "action_request", value => (ActionRequest.ofValue value).map .actionRequest
  | "action_result", value => (ActionResult.ofValue value).map .actionResult
  | "action_stream", value => (ActionStream.ofValue value).map .actionStream
  | "consent_prompt", value => (ConsentPrompt.ofValue value).map .consentPrompt
  | "consent_response", value => (ConsentResponse.ofValue value).map .consentResponse
  | "scope_update", value => (ScopeUpdate.ofValue value).map .scopeUpdate
  | "resume", value => (Resume.ofValue value).map .resume
  | "revoke", value => (Revoke.ofValue value).map .revoke
  | "error", value => (Error.ofValue value).map .error
  | _, _ => none

def decodeFromString (value : Value) : Option BridgeFrame :=
  ((value.get "kind").bind Value.asStr).bind fun name => ofSerialName name value

end BridgeFrame

end Android
