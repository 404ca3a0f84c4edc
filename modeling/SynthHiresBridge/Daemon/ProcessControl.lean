import SynthHiresBridge.Daemon.Autoupdate
import SynthHiresBridge.Daemon.Protocol
import SynthHiresBridge.Posix.Signals

namespace Daemon

namespace ProcessControl

structure ProcessListRequest where
  query : Option String
  limit : Option Nat

structure ProcessInfo where
  pid : UInt32
  name : String
  command : String
  deriving DecidableEq

structure ProcessListResult where
  processes : List ProcessInfo
  truncated : Bool

structure ProcessKillRequest where
  pid : Option UInt32
  name : Option String

structure ProcessKillResult where
  killed : List UInt32
  deriving DecidableEq

/-- The command `ps` cannot be run, it fails with a status, or it prints a table. -/
inductive Listing where
  | unreachable (error : String)
  | failed (status : String)
  | printed (stdout : List UInt8)

/-- What the daemon is given by its machine. -/
structure System where
  daemon : Posix.Process
  lowercase : String → String
  ps : Listing

/-- The command `kill` cannot be run, or it ends and may have failed. It may answer by all that was
asked of it before. -/
def Helper : Type := List UInt32 → UInt32 → Except String Bool

def defaultProcessLimit : Nat := 200
def maxProcessLimit : Nat := 1000

/-- `str::parse` reads an unsigned integer of 32 bits like a longer one. -/
def parseU32 (text : String) : Option UInt32 :=
  ((parseU64 text).filter (· < UInt32.size)).map UInt32.ofNat

def parseProcessLine (line : String) : Option ProcessInfo :=
  match Text.splitWhitespace line with
  | [] => none
  | pid :: fields =>
      match parseU32 pid with
      | none => none
      | some pid =>
          match fields with
          | [] => none
          | name :: command => some ⟨pid, name, String.intercalate " " command⟩

variable (system : System)

/-- The words of a row that a query may name. -/
def searchable (process : ProcessInfo) : String :=
  system.lowercase (process.name ++ " " ++ process.command)

/-- The rows are collected until there are as many as the limit. -/
def collect (query : String) (limit : Nat) : List ProcessInfo → List String → List ProcessInfo
  | processes, [] => processes
  | processes, line :: rest =>
      match parseProcessLine line with
      | none => collect query limit processes rest
      | some process =>
          if query ≠ "" ∧ ¬ Text.contains (searchable system process) query then
            collect query limit processes rest
          else if (processes ++ [process]).length ≥ limit then processes ++ [process]
          else collect query limit (processes ++ [process]) rest

def listProcesses (request : ProcessListRequest) : Except DaemonError ProcessListResult :=
  let limit := Nat.min (Nat.max (request.limit.getD defaultProcessLimit) 1) maxProcessLimit
  let query := system.lowercase (request.query.getD "")
  match system.ps with
  | .unreachable error => .error (.io error)
  | .failed status => .error (.protocol ("process listing failed with " ++ status))
  | .printed stdout =>
      let processes := collect system query limit [] (Text.lines (Text.lossy stdout))
      .ok ⟨processes, decide (processes.length ≥ limit)⟩

/-- The processes that a request names. -/
def targets (request : ProcessKillRequest) : Except DaemonError (List UInt32) :=
  if request.pid.isSome = request.name.isSome then
    .error (.protocol "provide exactly one of pid or name")
  else
    match request.pid with
    | some pid =>
        if pid.toNat = system.daemon.pid then
          .error (.protocol "refusing to terminate the daemon itself")
        else .ok [pid]
    | none =>
        let name := system.lowercase (Text.trim (request.name.getD ""))
        if name = "" ∨ name.utf8ByteSize > 255 then .error (.protocol "invalid process name")
        else
          (listProcesses system ⟨some name, some maxProcessLimit⟩).map fun listed =>
            ((listed.processes.filter fun process =>
              system.lowercase process.name = name ∧ process.pid.toNat ≠ system.daemon.pid).map
                ProcessInfo.pid).take 32

/-- The numbers that `kill` was run with come with the result. -/
structure Outcome where
  sent : List UInt32
  result : Except DaemonError ProcessKillResult

/-- A command that cannot be run ends the loop. -/
def signalAll (helper : Helper) : List UInt32 → List UInt32 → List UInt32 → Outcome
  | sent, killed, [] => ⟨sent, .ok ⟨killed⟩⟩
  | sent, killed, pid :: rest =>
      match helper sent pid with
      | .error error => ⟨sent, .error (.io error)⟩
      | .ok success =>
          signalAll helper (sent ++ [pid]) (if success then killed ++ [pid] else killed) rest

def killProcess (helper : Helper) (request : ProcessKillRequest) : Outcome :=
  match targets system request with
  | .error error => ⟨[], .error error⟩
  | .ok pids => signalAll helper [] [] pids

end ProcessControl

end Daemon
