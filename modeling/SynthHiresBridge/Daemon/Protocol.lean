import SynthHiresBridge.Data.Json
import SynthHiresBridge.Posix.Walk
import SynthHiresBridge.Data.BitGroups

namespace Daemon

open Json Posix

def protocolVersion : Nat := 1

structure Scopes where
  capabilities : List String
  alwaysAllowPaths : List String
  deriving DecidableEq

structure ActionRequestFrame where
  v : Nat
  id : String
  capability : String
  params : Value
  conversationId : Option String
  skipConsentPrompt : Bool

structure ActionError where
  code : String
  message : String
  deriving DecidableEq

structure ActionResultFrame where
  v : Nat
  id : String
  ok : Bool
  output : Option Value
  error : Option ActionError
  durationMs : Nat

inductive StreamChannel where
  | stdout
  | stderr
  | log
  deriving DecidableEq

structure ActionStreamFrame where
  v : Nat
  id : String
  seq : Nat
  channel : StreamChannel
  data : String
  eof : Bool
  deriving DecidableEq

structure ConsentPromptFrame where
  v : Nat
  id : String
  capability : String
  summary : String
  paramsHash : String
  path : Option String
  deriving DecidableEq

structure ConsentResponseFrame where
  v : Nat
  id : String
  approved : Bool
  remember : Bool
  deriving DecidableEq

structure HeartbeatFrame where
  v : Nat
  t : Nat
  deriving DecidableEq

/-- A server frame reaches the loop. The frames that only a daemon sends, a second `hello_ack`,
a cancel and a resume change nothing, and they are one case here. -/
inductive ServerFrame where
  | heartbeatAck (t : Nat)
  | actionRequest (request : ActionRequestFrame)
  | scopeUpdate (scopes : Scopes)
  | consentResponse (response : ConsentResponseFrame)
  | revoke
  | error (code message : String)
  | ignored

/-- The daemon sends these frames after its hello. -/
inductive SentFrame where
  | actionResult (frame : ActionResultFrame)
  | actionStream (frame : ActionStreamFrame)
  | consentPrompt (frame : ConsentPromptFrame)
  | heartbeat (frame : HeartbeatFrame)

/-- The text of an operating system error. -/
def errnoText : Errno → String
  | .notFound => "No such file or directory (os error 2)"
  | .notADirectory => "Not a directory (os error 20)"
  | .isADirectory => "Is a directory (os error 21)"
  | .alreadyExists => "File exists (os error 17)"
  | .filesystemLoop => "Too many levels of symbolic links (os error 40)"
  | .invalidInput => "Invalid argument (os error 22)"

/-- An operation fails with one of these errors, and `awaitingConsent` marks a parked action. -/
inductive DaemonError where
  | capabilityDenied (detail : String)
  | pathDenied (detail : String)
  | io (detail : String)
  | protocol (detail : String)
  | awaitingConsent
  deriving DecidableEq

def DaemonError.text : DaemonError → String
  | .capabilityDenied detail => "capability not granted: " ++ detail
  | .pathDenied detail => "path outside alwaysAllow: " ++ detail
  | .io detail => "io error: " ++ detail
  | .protocol detail => "protocol error: " ++ detail
  | .awaitingConsent => "waiting for owner consent"

def DaemonError.ofErrno (errno : Errno) : DaemonError := .io (errnoText errno)

namespace PairingCode

def crockford : List Char := "0123456789ABCDEFGHJKMNPQRSTVWXYZ".toList

def symbol (index : UInt32) : Char := crockford.getD (index &&& 0x1f).toNat '0'

/-- The inner loop either completes the code or leaves fewer than five bits. -/
inductive Emitted where
  | full (out : List Char)
  | more (bits : Nat) (out : List Char)
  deriving DecidableEq

/-- Each turn of `while bits >= 5` takes five bits off. -/
def emit (chars : Nat) (buffer : UInt32) : Nat → List Char → Emitted
  | bits + 5, out =>
      let out := out ++ [symbol (buffer >>> UInt32.ofNat bits)]
      if out.length = chars then .full out else emit chars buffer bits out
  | bits, out => .more bits out

/-- The count of bits stays below thirteen, so only the buffer can overflow. -/
def toCrockfordFrom (chars : Nat) : List UInt8 → UInt32 → Nat → List Char → List Char
  | [], buffer, bits, out =>
      if 0 < bits ∧ out.length < chars then
        out ++ [symbol (buffer <<< UInt32.ofNat (5 - bits))]
      else out
  | byte :: bytes, buffer, bits, out =>
      let buffer := buffer <<< 8 ||| byte.toUInt32
      match emit chars buffer (bits + 8) out with
      | .full out => out
      | .more bits out => toCrockfordFrom chars bytes buffer bits out

def toCrockford (bytes : List UInt8) (chars : Nat) : String :=
  String.ofList (toCrockfordFrom chars bytes 0 0 [])

/-- The bytes come from the system's random source. -/
def generatePairingCode (bytes : Vector UInt8 5) : String := toCrockford bytes.toList 6

example : toCrockford [255, 0, 255, 0, 255] 6 = "ZW0FY0" := by decide

end PairingCode

end Daemon
