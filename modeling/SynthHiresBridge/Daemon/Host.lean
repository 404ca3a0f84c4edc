import SynthHiresBridge.Daemon.Protocol
import SynthHiresBridge.Posix.FileSystem

namespace Daemon

open Json Posix

/-- One rewrite of a structural edit, in bytes of the source. -/
structure ByteEdit where
  position : Nat
  deletedLength : Nat
  insertedText : List UInt8
  deriving DecidableEq

/-- A host has the libraries and the settings the daemon does not define. -/
structure Host where
  /-- The SHA-256 digest in lower-case hexadecimal. -/
  sha256 : List UInt8 → String
  /-- The message for parameters that do not fit a structure of this name. -/
  paramsMessage : String → Value → String
  /-- The quoted form of a text in a diagnostic. -/
  debugText : String → String
  lowercase : String → String
  home : Option String
  /-- The language of the file is known and the pattern compiles, or the error says why not. -/
  astLanguage : (language : Option String) → (path pattern : String) → Except DaemonError Unit
  astReplaceAll : (language : Option String) → (path pattern replacement source : String) →
    List ByteEdit

/-- An operation of another engine sends its stream, changes the machine and ends with a result. -/
structure EngineReply where
  chunks : List (StreamChannel × String)
  machine : FileSystem
  ok : Bool
  output : Option Value
  error : Option String
  durationMs : Nat

/-- A moment fixes what the outside world gives while one event runs. -/
structure Moment where
  /-- The clock when an action parks, when a heartbeat ticks and when a sweep runs. -/
  now : Nat
  captureAt : Nat
  rollbackAt : Nat
  elapsed : Nat
  uuid : String
  probeName : String
  probePayload : String
  /-- A disk fault in the checkpoint store. -/
  storeFault : Option String
  engine : (capability : String) → (params : Value) → FileSystem → EngineReply
  watch : (path : String) → (durationMs : Option Nat) → (recursive : Bool) →
    Except DaemonError Value
  /-- The language server names itself and answers with an edit. -/
  workspaceEdit : (params : Value) → Except DaemonError (String × String × Value)
  /-- A chat push is stored with a verdict, or a store error ends the connection. -/
  chatPush : Value → Except String (Bool × Option String × Nat)
  /-- A hash map gives its keys in any order. -/
  arrange : List String → List String
  arranged : ∀ keys, (arrange keys).Perm keys

/-- A host whose libraries find nothing to do. -/
def Host.quiet : Host where
  sha256 _ := ""
  paramsMessage _ _ := ""
  debugText text := text
  lowercase text := text
  home := none
  astLanguage _ _ _ := .ok ()
  astReplaceAll _ _ _ _ _ := []

/-- A moment at a given time in which every engine answers and leaves the machine alone. -/
def Moment.quiet (now : Nat) : Moment where
  now := now
  captureAt := now
  rollbackAt := now
  elapsed := 0
  uuid := "0"
  probeName := "0"
  probePayload := "0"
  storeFault := none
  engine _ _ fs := ⟨[], fs, true, none, none, 0⟩
  watch _ _ _ := .ok .null
  workspaceEdit _ := .ok ("", "", .null)
  chatPush _ := .ok (true, none, 0)
  arrange keys := keys
  arranged keys := List.Perm.refl keys

end Daemon
