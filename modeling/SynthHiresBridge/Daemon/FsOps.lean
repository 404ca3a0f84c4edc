import Mathlib.Data.List.Sort
import SynthHiresBridge.Data.Text
import SynthHiresBridge.Posix.Mutation
import SynthHiresBridge.Daemon.Base64
import SynthHiresBridge.Daemon.Capability
import SynthHiresBridge.Daemon.Host

namespace Daemon

open Json Posix Base64

structure FsReadRequest where
  path : String
  maxBytes : Option Nat
  annotate : Option Bool

structure FsReadResult where
  contentBase64 : String
  size : Nat
  truncated : Bool
  deriving DecidableEq

structure FsWriteRequest where
  path : String
  content : String

structure FsWriteResult where
  bytesWritten : Nat
  verified : Bool
  deriving DecidableEq

structure FsDeleteRequest where
  path : String

structure FsVerifyRequest where
  path : String

structure FsVerifyResult where
  present : Bool
  isDir : Bool
  readable : Bool
  writable : Bool
  error : Option String
  deriving DecidableEq

structure FsListRequest where
  path : Option String

structure FsEntry where
  name : String
  path : String
  isDir : Bool
  deriving DecidableEq

structure FsListResult where
  parent : Option String
  entries : List FsEntry
  deriving DecidableEq

structure HashlineEdit where
  startLine : Nat
  endLine : Option Nat
  hashes : Option String
  replacement : List String

structure FsPatchRequest where
  path : String
  edits : List HashlineEdit

structure FsPatchApplied where
  startLine : Nat
  endLine : Nat
  linesAdded : Nat
  deriving DecidableEq

structure FsPatchResult where
  bytesWritten : Nat
  verified : Bool
  applied : List FsPatchApplied
  deriving DecidableEq

namespace FsOps

/-- A read checks the spelling of a path, and every other operation checks its real place. -/
def gateForPath (gate : CapabilityGate) (fs : FileSystem) (capability path : String) :
    Except DaemonError Unit :=
  let realCheck := capability != "desktop.fs.read"
  let decision :=
    if realCheck then gate.checkPathReal fs capability (.ofText path)
    else gate.checkPath capability (.ofText path)
  match decision with
  | .allow => .ok ()
  | .requireConsent => .error (.capabilityDenied (capability ++ " requires consent for " ++ path))
  | .deny => .error (.capabilityDenied capability)

/-- A bounded read returns the first bytes of a file and says when there are more. -/
def read (gate : CapabilityGate) (fs : FileSystem) (req : FsReadRequest) :
    Except DaemonError FsReadResult :=
  (gateForPath gate fs "desktop.fs.read" req.path).bind fun _ =>
    let max := min (req.maxBytes.getD 1048576) 10485760
    match fs.read (.ofText req.path) with
    | .error errno => .error (.ofErrno errno)
    | .ok content =>
        let bytes := content.take max
        .ok ⟨base64Encode bytes, bytes.length, decide (bytes.length < content.length)⟩

def hashlinePrefix : String := " | "

/-- The short hash of a line leaves its carriage return out. -/
def shortHash (host : Host) (line : String) : String :=
  let content := (Text.stripLast '\r' line.toList).getD line.toList
  String.ofList ((host.sha256 (Text.encode (String.ofList content))).toList.take 6)

def annotateContent (host : Host) (content : String) : String :=
  String.join <| (Text.lines content).zipIdx.map fun (line, index) =>
    toString (index + 1) ++ hashlinePrefix ++ shortHash host line ++ hashlinePrefix ++ line ++ "\n"

def readAnnotated (host : Host) (gate : CapabilityGate) (fs : FileSystem) (req : FsReadRequest)
    (annotate : Bool) : Except DaemonError FsReadResult :=
  (read gate fs req).bind fun result =>
    if annotate then match base64Decode result.contentBase64 with
      | none => .error (.protocol "fs.read: base64 roundtrip failed")
      | some plain => .ok { result with
          contentBase64 := base64Encode (Text.encode (annotateContent host (Text.lossy plain))) }
    else .ok result

/-- An atomic write creates a fresh sibling and renames it over the target. -/
def writeViaUniqueTmp (moment : Moment) (fs : FileSystem) (path : String) (bytes : List UInt8) :
    Except DaemonError Unit × FileSystem :=
  let tmp := (PathBuf.ofText path).withExtension ("synthhires-tmp-" ++ moment.uuid)
  match fs.createNew tmp bytes with
  | .error errno => (.error (.ofErrno errno), fs)
  | .ok created => match created.symlinkMetadata tmp with
      | .error errno => (.error (.ofErrno errno), created)
      | .ok (.symlink _) =>
          let removed := match created.removeFile tmp with
            | .ok removed => removed
            | .error _ => created
          (.error (.pathDenied (path ++ ": tmp path is a symlink — refusing atomic write")), removed)
      | .ok _ => match created.rename tmp (.ofText path) with
          | .error errno => (.error (.ofErrno errno), created)
          | .ok renamed => (.ok (), renamed)

def maxWriteBytes : Nat := 64 * 1024 * 1024

/-- A write makes the parents of its target, writes through a sibling and reads the target back. -/
def write (moment : Moment) (gate : CapabilityGate) (fs : FileSystem) (req : FsWriteRequest) :
    Except DaemonError FsWriteResult × FileSystem :=
  let bytes := Text.encode req.content
  match gateForPath gate fs "desktop.fs.write" req.path with
  | .error error => (.error error, fs)
  | .ok _ =>
    if maxWriteBytes < bytes.length then
      (.error (.pathDenied ("write rejected: " ++ toString bytes.length ++ " bytes exceeds the " ++
        toString (maxWriteBytes / (1024 * 1024)) ++ " MiB per-write limit")), fs)
    else match (PathBuf.ofText req.path).parent with
      | none => (.error (.pathDenied (req.path ++ ": no parent")), fs)
      | some parent => match fs.createDirAll parent with
        | (.error errno, made) => (.error (.ofErrno errno), made)
        | (.ok _, made) => match writeViaUniqueTmp moment made req.path bytes with
          | (.error error, written) => (.error error, written)
          | (.ok _, written) => match written.read (.ofText req.path) with
            | .error errno => (.error (.ofErrno errno), written)
            | .ok back => (.ok ⟨back.length, back == bytes⟩, written)

/-- A delete removes what the path leads to when that is a directory, and else the last entry. -/
def delete (gate : CapabilityGate) (fs : FileSystem) (req : FsDeleteRequest) :
    Except DaemonError Unit × FileSystem :=
  let path := PathBuf.ofText req.path
  match gateForPath gate fs "desktop.fs.delete" req.path with
  | .error error => (.error error, fs)
  | .ok _ => match fs.metadata path with
    | .error errno => (.error (.ofErrno errno), fs)
    | .ok .dir => match fs.removeDirAll path with
        | (.error errno, removed) => (.error (.ofErrno errno), removed)
        | (.ok _, removed) => (.ok (), removed)
    | .ok _ => match fs.removeFile path with
        | .error errno => (.error (.ofErrno errno), fs)
        | .ok removed => (.ok (), removed)

/-- A probe file is written, read back and removed again. -/
def probeWrite (moment : Moment) (fs : FileSystem) (dir : PathBuf) : Bool × FileSystem :=
  let probe := dir.child (".synthhires-verify-" ++ moment.probeName ++ ".tmp")
  let payload := Text.encode ("synthhires-verify:" ++ moment.probePayload)
  match fs.writeFile probe payload with
  | .error _ => (false, fs)
  | .ok written =>
      let readBack := match written.read probe with
        | .ok bytes => bytes == payload
        | .error _ => false
      (readBack, match written.removeFile probe with
        | .ok removed => removed
        | .error _ => written)

/-- This function reports whether a path exists, can be read and can be written. -/
def verify (moment : Moment) (fs : FileSystem) (req : FsVerifyRequest) :
    FsVerifyResult × FileSystem :=
  let path := PathBuf.ofText req.path
  match fs.metadata path with
  | .error errno =>
      (⟨false, false, false, false, some ("no existe o no es accesible: " ++ errnoText errno)⟩, fs)
  | .ok node =>
      let isDir := node == .dir
      let readable := if isDir then fs.isDir path else (fs.read path).isOk
      let probed :=
        if isDir then probeWrite moment fs path
        else probeWrite moment fs (path.parent.getD (path.parent.getD (.ofText ".")))
      let mark := fun passed : Bool => if passed then "ok" else "FALLA"
      (⟨true, isDir, readable, probed.1,
        if readable && probed.1 then none
        else some ("lectura: " ++ mark readable ++ ", escritura: " ++ mark probed.1)⟩, probed.2)

/-- The roots of the machine are the root directory and the home directory. -/
def roots (host : Host) : List FsEntry :=
  ⟨"/", "/", true⟩ :: match host.home with
    | some home => if home = "" then [] else [⟨home, home, true⟩]
    | none => []

/-- The text of a directory and a name in it. -/
def joinText (dir name : String) : String :=
  if dir.toList.getLast? = some '/' then dir ++ name else dir ++ "/" ++ name

/-- Directories come first, and names follow their lower-case order. -/
def entryBefore (host : Host) (first second : FsEntry) : Bool :=
  if first.isDir = second.isDir then host.lowercase first.name ≤ host.lowercase second.name
  else first.isDir

/-- A listing shows one directory, and without a target it shows the roots. -/
def list (host : Host) (fs : FileSystem) (req : FsListRequest) :
    Except DaemonError FsListResult :=
  let target := Text.trim (req.path.getD "")
  if target = "" then .ok ⟨none, roots host⟩
  else
    let dir := PathBuf.ofText target
    match fs.canonicalize dir with
    | .error errno => .error (.ofErrno errno)
    | .ok real =>
        if fs.lookup real = some .dir then
          let entries := (fs.children real).map fun name =>
            (⟨name, joinText target name, decide (fs.lookup (real ++ [name]) = some .dir)⟩ : FsEntry)
          .ok ⟨dir.parent.bind fun above => if above.display = "" then none else some above.display,
            entries.insertionSort fun first second => entryBefore host first second⟩
        else .error (.ofErrno .notADirectory)

/-- Every expected hash must stand among the current ones, and no expectation fits anything. -/
def anchorMatches (actual : List String) (expected : Option String) : Bool :=
  match expected with
  | none => true
  | some hashes =>
      (((hashes.toList.splitOn ',').map fun part => Text.trim (String.ofList part)).filter
        (· ≠ "")).all actual.contains

structure PatchAnchorError where
  startLine : Nat
  endLine : Nat
  expectedHashes : Option String
  actualHashes : List String

def PatchAnchorError.text (host : Host) (stale : PatchAnchorError) : String :=
  let expected := match stale.expectedHashes with
    | none => "None"
    | some hashes => "Some(" ++ host.debugText hashes ++ ")"
  "stale_anchor: lines " ++ toString stale.startLine ++ "-" ++ toString stale.endLine ++
    " changed since read (expected " ++ expected ++ ", now [" ++
    String.intercalate ", " (stale.actualHashes.map host.debugText) ++
    "]). Re-read the file and re-emit the patch."

/-- A planned edit replaces the lines from its start up to its end. -/
structure PlannedEdit where
  start : Nat
  stop : Nat
  replacement : List String

/-- Every anchor is checked against the original lines. -/
def planEdit (host : Host) (lines : List String) (edit : HashlineEdit) :
    Except DaemonError PlannedEdit :=
  let start := max edit.startLine 1
  let stop := max (edit.endLine.getD edit.startLine) start
  if lines.length < stop then
    .error (.protocol ("stale_anchor: end_line " ++ toString stop ++ " beyond EOF (" ++
      toString lines.length ++ " lines). Re-read the file."))
  else
    let actual := ((lines.take stop).drop (start - 1)).map (shortHash host)
    if anchorMatches actual edit.hashes then .ok ⟨start - 1, stop, edit.replacement⟩
    else .error (.protocol (PatchAnchorError.text host ⟨start, stop, edit.hashes, actual⟩))

/-- The edits are applied from the bottom up, and an edit may not reach into the one before it. -/
def applyPlanned (lines : List String) (applied : List FsPatchApplied) (last : Option Nat) :
    List PlannedEdit → Except DaemonError (List String × List FsPatchApplied)
  | [] => .ok (lines, applied)
  | edit :: rest =>
      if last.any (· < edit.stop) then .error (.protocol "fs.patch: overlapping edit ranges")
      else applyPlanned (lines.take edit.start ++ edit.replacement ++ lines.drop edit.stop)
        (⟨edit.start + 1, edit.stop, edit.replacement.length⟩ :: applied) (some edit.start) rest

/-- The new content of a patched file, with the edits as they were applied. -/
def patchedContent (host : Host) (original : List UInt8) (edits : List HashlineEdit) :
    Except DaemonError (String × List FsPatchApplied) :=
  let lines := Text.lines (Text.lossy original)
  (edits.mapM (planEdit host lines)).bind fun planned =>
    (applyPlanned lines [] none
      (planned.insertionSort fun first second => second.start ≤ first.start)).map fun patched =>
        (String.intercalate "\n" patched.1 ++
          (if original.getLast? = some 10 then "\n" else ""), patched.2)

/-- A patch checks every anchor before it writes. -/
def patch (host : Host) (moment : Moment) (gate : CapabilityGate) (fs : FileSystem)
    (req : FsPatchRequest) : Except DaemonError FsPatchResult × FileSystem :=
  match gateForPath gate fs "desktop.fs.write" req.path with
  | .error error => (.error error, fs)
  | .ok _ =>
    if req.edits.isEmpty then (.error (.protocol "fs.patch: no edits"), fs)
    else match fs.read (.ofText req.path) with
      | .error errno => (.error (.ofErrno errno), fs)
      | .ok original => match patchedContent host original req.edits with
        | .error error => (.error error, fs)
        | .ok (content, applied) =>
          let bytes := Text.encode content
          match writeViaUniqueTmp moment fs req.path bytes with
          | (.error error, written) => (.error error, written)
          | (.ok _, written) => match written.read (.ofText req.path) with
            | .error errno => (.error (.ofErrno errno), written)
            | .ok back => (.ok ⟨back.length, back == bytes, applied⟩, written)

end FsOps

end Daemon
