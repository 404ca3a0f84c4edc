import SynthHiresBridge.Daemon.Protocol
import SynthHiresBridge.Data.JsonRecord

namespace Daemon

open Json

inductive DeviceKind where
  | desktop
  | mobile
  deriving DecidableEq

def DeviceKind.text : DeviceKind → String
  | .desktop => "desktop"
  | .mobile => "mobile"

def DeviceKind.ofText : String → Option DeviceKind
  | "desktop" => some .desktop
  | "mobile" => some .mobile
  | _ => none

def StreamChannel.text : StreamChannel → String
  | .stdout => "stdout"
  | .stderr => "stderr"
  | .log => "log"

def StreamChannel.ofText : String → Option StreamChannel
  | "stdout" => some .stdout
  | "stderr" => some .stderr
  | "log" => some .log
  | _ => none

inductive ToolsProbeKind where
  | shell
  | vcs
  | lsp
  | dap
  deriving DecidableEq

def ToolsProbeKind.text : ToolsProbeKind → String
  | .shell => "shell"
  | .vcs => "vcs"
  | .lsp => "lsp"
  | .dap => "dap"

def ToolsProbeKind.ofText : String → Option ToolsProbeKind
  | "shell" => some .shell
  | "vcs" => some .vcs
  | "lsp" => some .lsp
  | "dap" => some .dap
  | _ => none

structure ToolProbe where
  name : String
  version : Option String
  kind : ToolsProbeKind

structure HelloFrame where
  v : Nat
  tokenHash : String
  fingerprint : String
  deviceKind : DeviceKind
  deviceName : String
  clientVersion : String
  os : String
  arch : String
  features : List String
  consentTimeoutMs : Nat
  tools : List ToolProbe

structure HelloAckFrame where
  v : Nat
  deviceId : String
  scopes : Scopes
  heartbeatIntervalMs : Nat

structure HeartbeatAckFrame where
  v : Nat
  t : Nat

structure ActionCancelFrame where
  v : Nat
  id : String
  reason : String

structure ScopeUpdateFrame where
  v : Nat
  scopes : Scopes
  reason : Option String

structure ResumeFrame where
  v : Nat
  deviceId : String

structure RevokeFrame where
  v : Nat
  reason : String

structure ErrorFrame where
  v : Nat
  code : String
  message : String
  close : Option UInt16

inductive BridgeFrame where
  | hello (frame : HelloFrame)
  | helloAck (frame : HelloAckFrame)
  | heartbeat (frame : HeartbeatFrame)
  | heartbeatAck (frame : HeartbeatAckFrame)
  | actionRequest (frame : ActionRequestFrame)
  | actionCancel (frame : ActionCancelFrame)
  | actionResult (frame : ActionResultFrame)
  | actionStream (frame : ActionStreamFrame)
  | consentPrompt (frame : ConsentPromptFrame)
  | consentResponse (frame : ConsentResponseFrame)
  | scopeUpdate (frame : ScopeUpdateFrame)
  | resume (frame : ResumeFrame)
  | revoke (frame : RevokeFrame)
  | error (frame : ErrorFrame)

def textList (texts : List String) : Value :=
  .array (texts.map Value.string)

/-- An integer type of 32 bits. -/
def asU32 : Value → Option Nat :=
  Value.asBelow (2 ^ 32)

def asU16 (value : Value) : Option UInt16 :=
  (Value.asBelow (2 ^ 16) value).map UInt16.ofNat

/-- A derived structure reads its fields from the object that holds them. -/
def readFields {α : Type} (names : List String) (read : List (Option Value) → Option α)
    (value : Value) : Option α :=
  (value.fieldsOnce names).bind read

def ToolProbe.fields (probe : ToolProbe) : List (String × Option Value) :=
  [("name", some (.string probe.name)), ("version", probe.version.map Value.string),
    ("kind", some (.string probe.kind.text))]

def ToolProbe.ofValue : Value → Option ToolProbe :=
  readFields ["name", "version", "kind"] fun
    | [name, version, kind] => do
        return ⟨← name.bind Value.asStr, ← Value.optional Value.asStr version,
          ← (kind.bind Value.asStr).bind ToolsProbeKind.ofText⟩
    | _ => none

def Scopes.fields (scopes : Scopes) : List (String × Option Value) :=
  [("capabilities", some (textList scopes.capabilities)),
    ("alwaysAllowPaths", some (textList scopes.alwaysAllowPaths))]

def Scopes.ofValue : Value → Option Scopes :=
  readFields ["capabilities", "alwaysAllowPaths"] fun
    | [capabilities, alwaysAllowPaths] => do
        return ⟨← Value.defaulted [] (Value.listOf Value.asStr) capabilities,
          ← Value.defaulted [] (Value.listOf Value.asStr) alwaysAllowPaths⟩
    | _ => none

def ActionError.fields (error : ActionError) : List (String × Option Value) :=
  [("code", some (.string error.code)), ("message", some (.string error.message))]

def ActionError.ofValue : Value → Option ActionError :=
  readFields ["code", "message"] fun
    | [code, message] => do return ⟨← code.bind Value.asStr, ← message.bind Value.asStr⟩
    | _ => none

def HelloFrame.fields (frame : HelloFrame) : List (String × Option Value) :=
  [("v", some (.ofNat frame.v)), ("tokenHash", some (.string frame.tokenHash)),
    ("fingerprint", some (.string frame.fingerprint)),
    ("deviceKind", some (.string frame.deviceKind.text)),
    ("deviceName", some (.string frame.deviceName)),
    ("clientVersion", some (.string frame.clientVersion)), ("os", some (.string frame.os)),
    ("arch", some (.string frame.arch)), ("features", some (textList frame.features)),
    ("consentTimeoutMs", some (.ofNat frame.consentTimeoutMs)),
    ("tools", some (.array (frame.tools.map fun probe => .object (written probe.fields))))]

def HelloFrame.ofValue : Value → Option HelloFrame :=
  readFields ["v", "tokenHash", "fingerprint", "deviceKind", "deviceName", "clientVersion", "os",
      "arch", "features", "consentTimeoutMs", "tools"] fun
    | [v, tokenHash, fingerprint, deviceKind, deviceName, clientVersion, os, arch, features,
        consentTimeoutMs, tools] => do
        return ⟨← v.bind asU32, ← tokenHash.bind Value.asStr, ← fingerprint.bind Value.asStr,
          ← (deviceKind.bind Value.asStr).bind DeviceKind.ofText, ← deviceName.bind Value.asStr,
          ← clientVersion.bind Value.asStr, ← Value.defaulted "" Value.asStr os,
          ← Value.defaulted "" Value.asStr arch,
          ← Value.defaulted [] (Value.listOf Value.asStr) features,
          ← Value.defaulted 0 Value.asU64 consentTimeoutMs,
          ← Value.defaulted [] (Value.listOf ToolProbe.ofValue) tools⟩
    | _ => none

def HelloAckFrame.fields (frame : HelloAckFrame) : List (String × Option Value) :=
  [("v", some (.ofNat frame.v)), ("deviceId", some (.string frame.deviceId)),
    ("scopes", some (.object (written frame.scopes.fields))),
    ("heartbeatIntervalMs", some (.ofNat frame.heartbeatIntervalMs))]

def HelloAckFrame.ofValue : Value → Option HelloAckFrame :=
  readFields ["v", "deviceId", "scopes", "heartbeatIntervalMs"] fun
    | [v, deviceId, scopes, heartbeatIntervalMs] => do
        return ⟨← v.bind asU32, ← deviceId.bind Value.asStr, ← scopes.bind Scopes.ofValue,
          ← Value.defaulted 0 Value.asU64 heartbeatIntervalMs⟩
    | _ => none

def HeartbeatFrame.fields (frame : HeartbeatFrame) : List (String × Option Value) :=
  [("v", some (.ofNat frame.v)), ("t", some (.ofNat frame.t))]

def HeartbeatFrame.ofValue : Value → Option HeartbeatFrame :=
  readFields ["v", "t"] fun
    | [v, t] => do return ⟨← v.bind asU32, ← t.bind Value.asU64⟩
    | _ => none

def HeartbeatAckFrame.fields (frame : HeartbeatAckFrame) : List (String × Option Value) :=
  [("v", some (.ofNat frame.v)), ("t", some (.ofNat frame.t))]

def HeartbeatAckFrame.ofValue : Value → Option HeartbeatAckFrame :=
  readFields ["v", "t"] fun
    | [v, t] => do return ⟨← v.bind asU32, ← t.bind Value.asU64⟩
    | _ => none

/-- An absent conversation is written as null. -/
def ActionRequestFrame.fields (frame : ActionRequestFrame) : List (String × Option Value) :=
  [("v", some (.ofNat frame.v)), ("id", some (.string frame.id)),
    ("capability", some (.string frame.capability)), ("params", some frame.params),
    ("conversationId", some (Value.ofOption frame.conversationId)),
    ("skipConsentPrompt", some (.bool frame.skipConsentPrompt))]

/-- Any value is read into the tree of its keys. -/
def ActionRequestFrame.ofValue : Value → Option ActionRequestFrame :=
  readFields ["v", "id", "capability", "params", "conversationId", "skipConsentPrompt"] fun
    | [v, id, capability, params, conversationId, skipConsentPrompt] => do
        return ⟨← v.bind asU32, ← id.bind Value.asStr, ← capability.bind Value.asStr,
          ← params.map Value.sorted, ← Value.optional Value.asStr conversationId,
          ← Value.defaulted false Value.asBool skipConsentPrompt⟩
    | _ => none

def ActionCancelFrame.fields (frame : ActionCancelFrame) : List (String × Option Value) :=
  [("v", some (.ofNat frame.v)), ("id", some (.string frame.id)),
    ("reason", some (.string frame.reason))]

def ActionCancelFrame.ofValue : Value → Option ActionCancelFrame :=
  readFields ["v", "id", "reason"] fun
    | [v, id, reason] => do
        return ⟨← v.bind asU32, ← id.bind Value.asStr, ← reason.bind Value.asStr⟩
    | _ => none

def ActionResultFrame.fields (frame : ActionResultFrame) : List (String × Option Value) :=
  [("v", some (.ofNat frame.v)), ("id", some (.string frame.id)), ("ok", some (.bool frame.ok)),
    ("output", frame.output), ("error", frame.error.map fun error => .object (written error.fields)),
    ("durationMs", some (.ofNat frame.durationMs))]

def ActionResultFrame.ofValue : Value → Option ActionResultFrame :=
  readFields ["v", "id", "ok", "output", "error", "durationMs"] fun
    | [v, id, ok, output, error, durationMs] => do
        return ⟨← v.bind asU32, ← id.bind Value.asStr, ← ok.bind Value.asBool,
          ← Value.optional (fun output => some output.sorted) output,
          ← Value.optional ActionError.ofValue error, ← durationMs.bind Value.asU64⟩
    | _ => none

def ActionStreamFrame.fields (frame : ActionStreamFrame) : List (String × Option Value) :=
  [("v", some (.ofNat frame.v)), ("id", some (.string frame.id)), ("seq", some (.ofNat frame.seq)),
    ("channel", some (.string frame.channel.text)), ("data", some (.string frame.data)),
    ("eof", some (.bool frame.eof))]

def ActionStreamFrame.ofValue : Value → Option ActionStreamFrame :=
  readFields ["v", "id", "seq", "channel", "data", "eof"] fun
    | [v, id, seq, channel, data, eof] => do
        return ⟨← v.bind asU32, ← id.bind Value.asStr, ← seq.bind Value.asU64,
          ← (channel.bind Value.asStr).bind StreamChannel.ofText, ← data.bind Value.asStr,
          ← Value.defaulted false Value.asBool eof⟩
    | _ => none

def ConsentPromptFrame.fields (frame : ConsentPromptFrame) : List (String × Option Value) :=
  [("v", some (.ofNat frame.v)), ("id", some (.string frame.id)),
    ("capability", some (.string frame.capability)), ("summary", some (.string frame.summary)),
    ("paramsHash", some (.string frame.paramsHash)), ("path", frame.path.map Value.string)]

def ConsentPromptFrame.ofValue : Value → Option ConsentPromptFrame :=
  readFields ["v", "id", "capability", "summary", "paramsHash", "path"] fun
    | [v, id, capability, summary, paramsHash, path] => do
        return ⟨← v.bind asU32, ← id.bind Value.asStr, ← capability.bind Value.asStr,
          ← summary.bind Value.asStr, ← paramsHash.bind Value.asStr,
          ← Value.optional Value.asStr path⟩
    | _ => none

def ConsentResponseFrame.fields (frame : ConsentResponseFrame) : List (String × Option Value) :=
  [("v", some (.ofNat frame.v)), ("id", some (.string frame.id)),
    ("approved", some (.bool frame.approved)), ("remember", some (.bool frame.remember))]

def ConsentResponseFrame.ofValue : Value → Option ConsentResponseFrame :=
  readFields ["v", "id", "approved", "remember"] fun
    | [v, id, approved, remember] => do
        return ⟨← v.bind asU32, ← id.bind Value.asStr, ← approved.bind Value.asBool,
          ← remember.bind Value.asBool⟩
    | _ => none

def ScopeUpdateFrame.fields (frame : ScopeUpdateFrame) : List (String × Option Value) :=
  [("v", some (.ofNat frame.v)), ("scopes", some (.object (written frame.scopes.fields))),
    ("reason", frame.reason.map Value.string)]

def ScopeUpdateFrame.ofValue : Value → Option ScopeUpdateFrame :=
  readFields ["v", "scopes", "reason"] fun
    | [v, scopes, reason] => do
        return ⟨← v.bind asU32, ← scopes.bind Scopes.ofValue, ← Value.optional Value.asStr reason⟩
    | _ => none

def ResumeFrame.fields (frame : ResumeFrame) : List (String × Option Value) :=
  [("v", some (.ofNat frame.v)), ("deviceId", some (.string frame.deviceId))]

def ResumeFrame.ofValue : Value → Option ResumeFrame :=
  readFields ["v", "deviceId"] fun
    | [v, deviceId] => do return ⟨← v.bind asU32, ← deviceId.bind Value.asStr⟩
    | _ => none

def RevokeFrame.fields (frame : RevokeFrame) : List (String × Option Value) :=
  [("v", some (.ofNat frame.v)), ("reason", some (.string frame.reason))]

def RevokeFrame.ofValue : Value → Option RevokeFrame :=
  readFields ["v", "reason"] fun
    | [v, reason] => do return ⟨← v.bind asU32, ← reason.bind Value.asStr⟩
    | _ => none

def ErrorFrame.fields (frame : ErrorFrame) : List (String × Option Value) :=
  [("v", some (.ofNat frame.v)), ("code", some (.string frame.code)),
    ("message", some (.string frame.message)), ("close", frame.close.map fun close => .ofNat close.toNat)]

def ErrorFrame.ofValue : Value → Option ErrorFrame :=
  readFields ["v", "code", "message", "close"] fun
    | [v, code, message, close] => do
        return ⟨← v.bind asU32, ← code.bind Value.asStr, ← message.bind Value.asStr,
          ← Value.optional asU16 close⟩
    | _ => none

namespace BridgeFrame

def kind : BridgeFrame → String
  | .hello _ => "hello"
  | .helloAck _ => "hello_ack"
  | .heartbeat _ => "heartbeat"
  | .heartbeatAck _ => "heartbeat_ack"
  | .actionRequest _ => "action_request"
  | .actionCancel _ => "action_cancel"
  | .actionResult _ => "action_result"
  | .actionStream _ => "action_stream"
  | .consentPrompt _ => "consent_prompt"
  | .consentResponse _ => "consent_response"
  | .scopeUpdate _ => "scope_update"
  | .resume _ => "resume"
  | .revoke _ => "revoke"
  | .error _ => "error"

def fields : BridgeFrame → List (String × Option Value)
  | .hello frame => frame.fields
  | .helloAck frame => frame.fields
  | .heartbeat frame => frame.fields
  | .heartbeatAck frame => frame.fields
  | .actionRequest frame => frame.fields
  | .actionCancel frame => frame.fields
  | .actionResult frame => frame.fields
  | .actionStream frame => frame.fields
  | .consentPrompt frame => frame.fields
  | .consentResponse frame => frame.fields
  | .scopeUpdate frame => frame.fields
  | .resume frame => frame.fields
  | .revoke frame => frame.fields
  | .error frame => frame.fields

/-- The tag comes first. -/
def toValue (frame : BridgeFrame) : Value :=
  .object (("kind", .string frame.kind) :: written frame.fields)

def ofTagged : String → Value → Option BridgeFrame
  | "hello", rest => (HelloFrame.ofValue rest).map .hello
  | "hello_ack", rest => (HelloAckFrame.ofValue rest).map .helloAck
  | "heartbeat", rest => (HeartbeatFrame.ofValue rest).map .heartbeat
  | "heartbeat_ack", rest => (HeartbeatAckFrame.ofValue rest).map .heartbeatAck
  | "action_request", rest => (ActionRequestFrame.ofValue rest).map .actionRequest
  | "action_cancel", rest => (ActionCancelFrame.ofValue rest).map .actionCancel
  | "action_result", rest => (ActionResultFrame.ofValue rest).map .actionResult
  | "action_stream", rest => (ActionStreamFrame.ofValue rest).map .actionStream
  | "consent_prompt", rest => (ConsentPromptFrame.ofValue rest).map .consentPrompt
  | "consent_response", rest => (ConsentResponseFrame.ofValue rest).map .consentResponse
  | "scope_update", rest => (ScopeUpdateFrame.ofValue rest).map .scopeUpdate
  | "resume", rest => (ResumeFrame.ofValue rest).map .resume
  | "revoke", rest => (RevokeFrame.ofValue rest).map .revoke
  | "error", rest => (ErrorFrame.ofValue rest).map .error
  | _, _ => none

def ofValue (value : Value) : Option BridgeFrame :=
  (value.tagged "kind").bind fun cut => ofTagged cut.1 cut.2

/-- `serde_json::from_str` reads no text of more than 127 levels. -/
def fromStr (value : Value) : Option BridgeFrame :=
  if value.depth ≤ 127 then ofValue value else none

end BridgeFrame

end Daemon
