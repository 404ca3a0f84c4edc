import SynthHiresBridge.Data.JsonBytes
import SynthHiresBridge.Data.JsonOrder
import SynthHiresBridge.Data.Table
import SynthHiresBridge.Data.Text

namespace Daemon

open Json

structure ArtifactEntry where
  target : String
  sha256 : String
  url : String
  deriving DecidableEq

/-- A manifest keeps its artifacts in a hash map. -/
structure SignedManifest where
  version : String
  publishedAt : String
  artifacts : Table String ArtifactEntry
  signature : String

inductive UpdateStatus where
  | upToDate
  | updateAvailable (version : String) (artifact : ArtifactEntry)
  | checkFailed (reason : String)
  deriving DecidableEq

inductive TargetOs where
  | windows
  | macos
  | other

/-- The target triple of a build. -/
def currentTarget (os : TargetOs) (aarch64 : Bool) : String :=
  match os with
  | .windows => "x86_64-pc-windows-msvc"
  | .macos => if aarch64 then "aarch64-apple-darwin" else "x86_64-apple-darwin"
  | .other => if aarch64 then "aarch64-unknown-linux-gnu" else "x86_64-unknown-linux-gnu"

/-- A daemon is built for a target with a public key, and it uses the libraries for JSON documents
and for signatures. -/
structure Updater where
  os : TargetOs
  aarch64 : Bool
  pubkeyHex : String
  /-- A document with its entries in the order of the text, or the error of the parser. -/
  document : List UInt8 → Except String Value
  /-- The message for a document that is no manifest. -/
  manifestMessage : List UInt8 → String
  validKey : List UInt8 → Bool
  validSignature : List UInt8 → Bool
  verifyStrict : (key message signature : List UInt8) → Bool
  /-- A hash map gives its keys in any order. -/
  arrange : List String → List String
  arranged : ∀ keys, (arrange keys).Perm keys

/-- A request fails, or its answer cannot be read, or it has a body. -/
inductive Fetch (Body : Type) where
  | unreachable (error : String)
  | unreadable (error : String)
  | body (body : Body)

/-- A release server answers the two requests of an update check. -/
structure ReleaseServer where
  client : Except String Unit
  latest : Fetch Value
  manifest : (url : String) → Fetch (List UInt8)

def hexDigitValue (char : Char) : Option Nat :=
  if '0' ≤ char ∧ char ≤ '9' then some (char.toNat - 48)
  else if 'a' ≤ char ∧ char ≤ 'f' then some (char.toNat - 87)
  else if 'A' ≤ char ∧ char ≤ 'F' then some (char.toNat - 55)
  else none

/-- `hex::decode` reads two digits for each byte. -/
def hexDecode : List Char → Option (List UInt8)
  | [] => some []
  | high :: low :: rest => do
      return UInt8.ofNat (16 * (← hexDigitValue high) + (← hexDigitValue low)) :: (← hexDecode rest)
  | [_] => none

/-- `str::parse` reads an unsigned integer of 64 bits after an optional plus sign. -/
def parseU64 (text : String) : Option Nat :=
  let digits := match text.toList with
    | '+' :: rest => rest
    | list => list
  if digits ≠ [] ∧ digits.all Char.isDigit then
    let value := digits.foldl (fun value digit => 10 * value + (digit.toNat - 48)) 0
    if value < UInt64.size then some value else none
  else none

/-- The numbers of a version, without a leading `v` and without what follows a dash or a plus. -/
def versionParts (version : String) : Option (List Nat) :=
  let stripped := match version.toList with
    | 'v' :: rest => rest
    | list => list
  let core := stripped.takeWhile fun char => char ≠ '-' ∧ char ≠ '+'
  (Text.split (String.ofList core) (· == '.')).mapM parseU64

/-- The first part that differs decides, and a missing part is zero. -/
def newerParts (own next : List Nat) : Bool :=
  match (List.range (max own.length next.length)).find? fun i => own.getD i 0 ≠ next.getD i 0 with
  | some i => decide (own.getD i 0 < next.getD i 0)
  | none => false

def isNewerVersion (current latest : String) : Bool :=
  match versionParts current, versionParts latest with
  | some own, some next => newerParts own next
  | _, _ => false

namespace Updater

variable (updater : Updater)

/-- The signed text of a manifest is its compact form without the signature. -/
def canonicalBytes (value : Value) : List UInt8 := (value.remove "signature").bytes

def verifyManifestSignature (raw : List UInt8) : Bool :=
  match hexDecode updater.pubkeyHex.toList with
  | none => false
  | some key =>
      if key.length = 32 ∧ updater.validKey key then
        match updater.document raw with
        | .error _ => false
        | .ok document =>
            let value := document.sorted
            let signatureHex := ((value.get "signature").bind Value.asStr).getD ""
            match hexDecode signatureHex.toList with
            | none => false
            | some signature =>
                if signature.length = 64 ∧ updater.validSignature signature then
                  updater.verifyStrict key (canonicalBytes value) signature
                else false
      else false

end Updater

def ArtifactEntry.ofDocument (value : Value) : Option ArtifactEntry :=
  match value.fieldsOnce ["target", "sha256", "url"] with
  | some [target, sha256, url] => do
      return ⟨← target.bind Value.asStr, ← sha256.bind Value.asStr, ← url.bind Value.asStr⟩
  | _ => none

/-- A later artifact takes the place of an earlier one with its name. -/
def readArtifacts (value : Value) : Option (Table String ArtifactEntry) := do
  let entries ← value.asObject
  let read ← entries.mapM fun entry => (ArtifactEntry.ofDocument entry.2).map fun artifact =>
    (entry.1, artifact)
  return read.foldl (fun table entry => table.insert entry.1 entry.2) ∅

def SignedManifest.ofDocument (value : Value) : Option SignedManifest :=
  match value.fieldsOnce ["version", "publishedAt", "artifacts", "signature"] with
  | some [version, publishedAt, artifacts, signature] => do
      return ⟨← version.bind Value.asStr, ← publishedAt.bind Value.asStr,
        ← artifacts.bind readArtifacts, ← signature.bind Value.asStr⟩
  | _ => none

def releasesApi : String := "https://api.github.com/repos/planobinario/synthhires-bridge/releases"

namespace Updater

variable (updater : Updater)

def parseManifest (raw : List UInt8) : Except String SignedManifest :=
  match updater.document raw with
  | .error error => .error error
  | .ok document => match SignedManifest.ofDocument document with
    | some manifest => .ok manifest
    | none => .error (updater.manifestMessage raw)

/-- The first artifact for a target, in the order of the hash map. -/
def findArtifact (manifest : SignedManifest) (target : String) : Option ArtifactEntry :=
  (updater.arrange manifest.artifacts.keys).findSome? fun name =>
    (manifest.artifacts.lookup name).filter fun entry => entry.target = target

/-- The tag of a release names its version. -/
def latestVersion (release : Value) : String :=
  let tagName := ((release.get "tag_name").bind Value.asStr).getD "unknown"
  match tagName.toList with
  | 'v' :: rest => String.ofList rest
  | _ => tagName

def manifestUrl (latestVersion : String) : String :=
  releasesApi ++ "/download/v" ++ latestVersion ++ "/release-manifest-" ++ latestVersion ++ ".json"

/-- The version of the release decides whether its manifest is read, and the manifest gives the
update. -/
def checkForUpdate (server : ReleaseServer) (currentVersion : String) : UpdateStatus :=
  match server.client with
  | .error error => .checkFailed ("client build: " ++ error)
  | .ok () => match server.latest with
    | .unreachable error => .checkFailed ("fetch latest: " ++ error)
    | .unreadable error => .checkFailed ("parse release: " ++ error)
    | .body release =>
        let latest := latestVersion release
        if !isNewerVersion currentVersion latest then .upToDate
        else match server.manifest (manifestUrl latest) with
          | .unreachable error => .checkFailed ("fetch manifest: " ++ error)
          | .unreadable error => .checkFailed ("read manifest body: " ++ error)
          | .body raw =>
              if !updater.verifyManifestSignature raw then
                .checkFailed "manifest Ed25519 signature verification failed — update refused"
              else match updater.parseManifest raw with
                | .error error => .checkFailed ("parse manifest: " ++ error)
                | .ok manifest =>
                    let target := currentTarget updater.os updater.aarch64
                    match updater.findArtifact manifest target with
                    | some entry => .updateAvailable manifest.version entry
                    | none => .checkFailed ("no artifact for target " ++ target ++ " in release " ++
                        latest)

end Updater

end Daemon
