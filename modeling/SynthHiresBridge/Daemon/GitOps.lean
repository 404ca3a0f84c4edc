import SynthHiresBridge.Daemon.Capability
import SynthHiresBridge.Daemon.Autoupdate
import SynthHiresBridge.Data.Cut

namespace Daemon

open Posix

/-- A spawned `git` either runs to its end or fails in one of three ways before it. -/
inductive GitRun where
  | notSpawned (detail : String)
  | timedOut
  | waitFailed (detail : String)
  | exited (success : Bool) (stdout stderr : List UInt8)

def GitRun.stdout : GitRun → List UInt8
  | .exited _ stdout _ => stdout
  | _ => []

/-- The commands and the working directory belong to the system. `debug` is the `{:?}` format. -/
structure GitHost where
  currentDir : Except DaemonError PathBuf
  git : PathBuf → List String → GitRun
  debug : String → String

structure GitDiffRequest where
  path : PathBuf
  target : Option String
  maxFiles : Option Nat

structure GitDiffResult where
  target : String
  filesChanged : Nat
  insertions : Nat
  deletions : Nat
  truncated : Bool
  diff : String
  deriving DecidableEq

structure GitCommit where
  hash : String
  subject : String
  relativeDate : String
  author : String
  deriving DecidableEq

structure GitOverviewResult where
  root : PathBuf
  branch : String
  upstream : Option String
  ahead : Int
  behind : Int
  head : String
  subject : String
  staged : List String
  modified : List String
  untracked : List String
  recentCommits : List GitCommit
  deriving DecidableEq

namespace GitOps

def maxOutputBytes : Nat := 512 * 1024

/-- The text of a `Utf8Error` names the first byte that is not part of a character. -/
def utf8Error : Nat → Nat → List UInt8 → String
  | 0, _, _ => ""
  | _, _, [] => ""
  | fuel + 1, index, byte :: rest =>
      match Text.lead byte.toNat with
      | none => "invalid utf-8 sequence of 1 bytes from index " ++ toString index
      | some (count, low, high, bits) =>
          match Text.follow count low high bits rest with
          | (some _, left) => utf8Error fuel (index + (rest.length + 1 - left.length)) left
          | (none, []) => "incomplete utf-8 byte sequence from index " ++ toString index
          | (none, left) => "invalid utf-8 sequence of " ++
              toString (rest.length + 1 - left.length) ++ " bytes from index " ++ toString index

/-- The output of a successful run is cut before it is read as a text. -/
def runGit : GitRun → Except DaemonError String
  | .notSpawned detail => .error (.io ("git: " ++ detail))
  | .timedOut => .error (.protocol "git: timed out")
  | .waitFailed detail => .error (.io detail)
  | .exited success stdout stderr =>
      if !success then
        .error (.protocol ("git: " ++ (Text.lines (Text.lossy stderr)).head?.getD "git failed"))
      else
        let out := stdout.take maxOutputBytes
        match Text.strict out with
        | some text => .ok text
        | none => .error (.protocol ("git: non-utf8 output: " ++ utf8Error out.length 0 out))

/-- A relative path continues the working directory. -/
def absolute (host : GitHost) (path : PathBuf) : Except DaemonError PathBuf :=
  if path.anchor = .root then .ok path
  else do
    let dir ← host.currentDir
    return ⟨dir.anchor, dir.segments ++ path.segments,
      if path = ⟨.bare, [], .plain⟩ then .slash
      else if path = ⟨.current, [], .plain⟩ then .dot else path.ending⟩

def gateRoot (gate : CapabilityGate) (root : PathBuf) : Except DaemonError PathBuf :=
  match gate.checkPath "desktop.fs.read" root with
  | .allow => .ok root
  | .requireConsent => .error (.capabilityDenied
      ("desktop.git: repo " ++ root.display ++ " requires consent (desktop.fs.read)"))
  | .deny => .error (.capabilityDenied "desktop.git: not granted")

/-- The root that git reports is what the gate checks. -/
def gateRepo (gate : CapabilityGate) (host : GitHost) (path : PathBuf) :
    Except DaemonError PathBuf := do
  let path ← absolute host path
  let rootLine ← runGit (host.git path ["rev-parse", "--show-toplevel"])
  gateRoot gate (.ofText (Text.trim rootLine))

/-- A target that git could read as a flag is refused. -/
def invalidTarget (target : String) : Bool :=
  target.toList.head? = some '-' || target.toList.any Text.isControl

def statArgs (target : String) : List String :=
  if target = "staged" ∨ target = "--cached" then ["diff", "--cached", "--numstat"]
  else if target = "unstaged" ∨ target = "" then ["diff", "--numstat"]
  else ["diff", target, "--numstat"]

def diffArgs (target : String) (files : List String) : List String :=
  (if target = "staged" ∨ target = "--cached" then
      ["diff", "--cached", "--no-color", "--no-ext-diff", "--unified=3", "--"]
    else if target = "unstaged" ∨ target = "" then
      ["diff", "--no-color", "--no-ext-diff", "--unified=3", "--"]
    else ["diff", target, "--no-color", "--no-ext-diff", "--unified=3", "--"]) ++ files

def columns (line : String) : List String := Text.split line (· == '\t')

/-- A line counts when it has three columns, and a column that is no number counts as zero. -/
def countLine (counts : Nat × Nat × Nat) (line : String) : Nat × Nat × Nat :=
  match columns line with
  | added :: deleted :: _ :: _ =>
      (counts.1 + 1, counts.2.1 + (parseU64 added).getD 0,
        counts.2.2 + (parseU64 deleted).getD 0)
  | _ => counts

def fileNames (numstat : String) : List String :=
  (Text.lines numstat).filterMap fun line => (columns line)[2]?

/-- What the first git call of a diff leaves to the second one. -/
structure DiffPlan where
  filesChanged : Nat
  insertions : Nat
  deletions : Nat
  files : List String
  deriving DecidableEq

def DiffPlan.truncated (plan : DiffPlan) : Bool := plan.files.length < plan.filesChanged

def planOf (numstat : String) (maxFiles : Nat) : DiffPlan :=
  let counts := (Text.lines numstat).foldl countLine (0, 0, 0)
  ⟨counts.1, counts.2.1, counts.2.2, (fileNames numstat).take maxFiles⟩

/-- The last column of each name is asked for. -/
def DiffPlan.asked (plan : DiffPlan) : List String :=
  plan.files.map fun file => ((columns file).getLast?).getD file

/-- No second call is made when no file is listed. -/
def diffBody (git : List String → GitRun) (target : String) (plan : DiffPlan) :
    Except DaemonError GitDiffResult :=
  (if plan.files = [] then .ok "" else runGit (git (diffArgs target plan.asked))).map fun body =>
    ⟨target, plan.filesChanged, plan.insertions, plan.deletions, plan.truncated, body⟩

def clampFiles (maxFiles : Option Nat) : Nat := max 1 (min (maxFiles.getD 40) 200)

def diff (gate : CapabilityGate) (host : GitHost) (request : GitDiffRequest) :
    Except DaemonError GitDiffResult := do
  let root ← gateRepo gate host request.path
  let target := request.target.getD "unstaged"
  if invalidTarget target then
    throw (.protocol ("git diff: invalid target " ++ host.debug target))
  let numstat ← runGit (host.git root (statArgs target))
  diffBody (host.git root) target (planOf numstat (clampFiles request.maxFiles))

/-- `str::parse` reads a signed integer of 64 bits. -/
def parseI64 (text : String) : Option Int :=
  match text.toList with
  | '-' :: rest =>
      if rest ≠ [] ∧ rest.all Char.isDigit then
        let value : Nat := rest.foldl (fun value digit => 10 * value + (digit.toNat - 48)) 0
        if value ≤ 2 ^ 63 then some (-(value : Int)) else none
      else none
  | _ => (parseU64 text).bind fun value =>
      if value < 2 ^ 63 then some (value : Int) else none

/-- The upstream is the first word after the first three dots. -/
def upstreamOf (first : String) : Option String := do
  let (_, rest) ← Text.splitOnce "...".toList first.toList
  let piece := match Text.splitOnce "...".toList rest with
    | some (piece, _) => piece
    | none => rest
  let word ← (Text.splitWhitespace (String.ofList piece)).head?
  return String.ofList (word.toList.dropWhile (· = '['))

def countPart (counts : Int × Int) (part : String) : Int × Int :=
  let part := (Text.trim part).toList
  match Text.stripPrefix "ahead ".toList part, Text.stripPrefix "behind ".toList part with
  | some number, _ => ((parseI64 (String.ofList number)).getD 0, counts.2)
  | none, some number => (counts.1, (parseI64 (String.ofList number)).getD 0)
  | none, none => counts

/-- The slice between the first bracket and the last byte panics where there is none. -/
def countersOf (first : String) : Option (Int × Int) :=
  match Text.splitOnce ['['] first.toList with
  | none => some (0, 0)
  | some (_, rest) => do
      let last ← rest.getLast?
      if last.utf8Size = 1 then
        some ((Text.split (String.ofList rest.dropLast) (· == ',')).foldl countPart (0, 0))
      else none

/-- `str::split_at` panics where the second byte is inside a character. -/
def splitAtTwo : List Char → Option (List Char × List Char)
  | char :: rest =>
      if char.utf8Size = 2 then some ([char], rest)
      else match rest with
        | next :: rest =>
            if char.utf8Size = 1 ∧ next.utf8Size = 1 then some ([char, next], rest) else none
        | [] => none
  | [] => none

/-- The three lists of files of a status. -/
structure StatusLists where
  staged : List String
  modified : List String
  untracked : List String
  deriving DecidableEq

def StatusLists.add (lists : StatusLists) (line : String) : Option StatusLists :=
  if line.utf8ByteSize < 4 then some lists
  else do
    let (xy, file) ← splitAtTwo line.toList
    let file := String.ofList (file.dropWhile Text.isWhitespace)
    return match xy.head? with
      | some '?' => { lists with untracked := lists.untracked ++ [file] }
      | some ' ' => { lists with modified := lists.modified ++ [file] }
      | _ => { lists with staged := lists.staged ++ [file] }

def statusLists (porcelain : String) : Option StatusLists :=
  (Text.lines porcelain).foldlM StatusLists.add ⟨[], [], []⟩

def commitOf (line : String) : Option GitCommit :=
  match columns line with
  | hash :: subject :: relativeDate :: rest => some ⟨hash, subject, relativeDate, rest.head?.getD ""⟩
  | _ => none

/-- One git call of an overview, and no value stands for a panic. -/
def call (host : GitHost) (root : PathBuf) (args : List String) :
    ExceptT DaemonError Option String :=
  ExceptT.mk (some (runGit (host.git root args)))

def overview (gate : CapabilityGate) (host : GitHost) (path : PathBuf) :
    ExceptT DaemonError Option GitOverviewResult := do
  let root ← ExceptT.mk (some (gateRepo gate host path))
  let branch ← call host root ["rev-parse", "--abbrev-ref", "HEAD"]
  let head ← call host root ["rev-parse", "HEAD"]
  let subject ← call host root ["log", "-1", "--format=%s"]
  let track ← call host root ["status", "-sb"]
  let first := (Text.lines track).head?.getD ""
  let upstream := upstreamOf first
  let (ahead, behind) ← ExceptT.mk ((countersOf first).map Except.ok)
  let porcelain ← call host root ["status", "--porcelain"]
  let lists ← ExceptT.mk ((statusLists porcelain).map Except.ok)
  let log ← call host root
    ["log", "--max-count=10", "--date=relative", "--format=%h%x09%s%x09%ar%x09%an"]
  return ⟨root, Text.trim branch, upstream, ahead, behind, Text.trim head, Text.trim subject,
    lists.staged, lists.modified, lists.untracked, (Text.lines log).filterMap commitOf⟩

end GitOps

end Daemon
