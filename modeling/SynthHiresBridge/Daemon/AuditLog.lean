import SynthHiresBridge.Data.JsonBytes
import SynthHiresBridge.Data.JsonOrder
import SynthHiresBridge.Data.Separated

namespace Daemon

open Json

structure AuditEntry (Time : Type) where
  ts : Time
  capability : String
  paramsSummary : String
  ok : Bool
  durationMs : UInt64
  deviceId : String
  deriving DecidableEq

/-- The log uses the libraries for times, for JSON documents and for AES-256-GCM. -/
structure AuditLibraries (Time : Type) where
  spellTime : Time → String
  readTime : String → Option Time
  /-- A document with its entries in the order of the text, or the error of the parser. -/
  document : List UInt8 → Except String Value
  /-- The message for a document that is no entry. -/
  entryMessage : List UInt8 → String

structure AuditCipher where
  encrypt : (key nonce plaintext : List UInt8) → Except String (List UInt8)
  decrypt : (key nonce ciphertext : List UInt8) → Except String (List UInt8)

/-- The failures of the log itself are keyring errors. -/
structure KeyringError where
  detail : String
  deriving DecidableEq

def KeyringError.text (error : KeyringError) : String := "keyring error: " ++ error.detail

namespace AuditEntry

variable {Time : Type} (libraries : AuditLibraries Time)

def toValue (entry : AuditEntry Time) : Value :=
  .object [("ts", .string (libraries.spellTime entry.ts)),
    ("capability", .string entry.capability), ("params_summary", .string entry.paramsSummary),
    ("ok", .bool entry.ok), ("duration_ms", .ofNat entry.durationMs.toNat),
    ("device_id", .string entry.deviceId)]

def ofDocument (value : Value) : Option (AuditEntry Time) :=
  match value.fieldsOnce
    ["ts", "capability", "params_summary", "ok", "duration_ms", "device_id"] with
  | some [ts, capability, paramsSummary, ok, durationMs, deviceId] => do
      return ⟨← (ts.bind Value.asStr).bind libraries.readTime, ← capability.bind Value.asStr,
        ← paramsSummary.bind Value.asStr, ← ok.bind Value.asBool,
        UInt64.ofNat (← durationMs.bind Value.asU64), ← deviceId.bind Value.asStr⟩
  | _ => none

end AuditEntry

/-- An open log has its key, and its file may not exist yet. -/
structure AuditLog where
  key : List UInt8

namespace AuditLog

variable {Time : Type} (libraries : AuditLibraries Time) (cipher : AuditCipher) (log : AuditLog)

/-- A frame is a random nonce and the ciphertext. -/
def frame (entry : AuditEntry Time) (nonce : Vector UInt8 12) :
    Except KeyringError (List UInt8) :=
  match cipher.encrypt log.key nonce.toList (entry.toValue libraries).bytes with
  | .error error => .error ⟨"audit enc: " ++ error⟩
  | .ok ciphertext => .ok (nonce.toList ++ ciphertext)

/-- An entry is appended with a newline after its frame. -/
def append (file : Option (List UInt8)) (entry : AuditEntry Time) (nonce : Vector UInt8 12) :
    Except KeyringError (List UInt8) :=
  (log.frame libraries cipher entry nonce).map fun frame => file.getD [] ++ frame ++ [0x0A]

/-- A line is a nonce and a ciphertext, and a line too short for a nonce is skipped. -/
def readLine (line : List UInt8) : Except KeyringError (Option (AuditEntry Time)) :=
  if line.length < 12 then .ok none
  else match cipher.decrypt log.key (line.take 12) (line.drop 12) with
    | .error error => .error ⟨"audit dec: " ++ error⟩
    | .ok plaintext => match libraries.document plaintext with
      | .error error => .error ⟨"audit de: " ++ error⟩
      | .ok value => match AuditEntry.ofDocument libraries value with
        | none => .error ⟨"audit de: " ++ libraries.entryMessage plaintext⟩
        | some entry => .ok (some entry)

/-- The lines are read in order up to the first one that fails. -/
def readLines : List (List UInt8) → Except KeyringError (List (AuditEntry Time))
  | [] => .ok []
  | line :: rest => match log.readLine libraries cipher line with
    | .error error => .error error
    | .ok entry => (readLines rest).map (entry.toList ++ ·)

def readAll (file : Option (List UInt8)) : Except KeyringError (List (AuditEntry Time)) :=
  match file with
  | none => .ok []
  | some raw => log.readLines libraries cipher (Separated.read 0x0A raw)

/-- Entries are appended one after another, each with its own nonce. -/
def appendAll (file : Option (List UInt8)) :
    List (AuditEntry Time × Vector UInt8 12) → Except KeyringError (Option (List UInt8))
  | [] => .ok file
  | (entry, nonce) :: rest => match log.append libraries cipher file entry nonce with
    | .error error => .error error
    | .ok written => appendAll (some written) rest

end AuditLog

end Daemon
