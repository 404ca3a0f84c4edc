import SynthHiresBridge.Daemon.TaskRegistry
import SynthHiresBridge.Data.JsonText

namespace Daemon

/-- The text of an identifier has five groups of hexadecimal digits. -/
def Uuid.toText (id : Uuid) : String :=
  String.ofList <| (List.range 32).flatMap fun place =>
    let digit := Json.hexDigit (id.toNat / 16 ^ (31 - place) % 16)
    if [8, 12, 16, 20].contains place then ['-', digit] else [digit]

namespace ProcEngine

structure LogRing where
  lines : List String
  total : Nat

def LogRing.push (ring : LogRing) (line : String) : LogRing :=
  ⟨(if ring.lines.length ≥ 500 then ring.lines.drop 1 else ring.lines) ++ [line], ring.total + 1⟩

def LogRing.read (ring : LogRing) (start max : Option Nat) : List String × Nat :=
  let max := Nat.max 1 (Nat.min (max.getD 200) 1000)
  let skip := Nat.min (start.getD 0) ring.total
  (((ring.lines.drop (ring.total - ring.lines.length)).drop skip).take max, ring.total)

inductive ProcState where
  | running
  | exited (code : Int)
  | killed
  | failed (reason : String)
  deriving DecidableEq

def ProcState.label : ProcState → String
  | .running => "running"
  | .exited _ => "exited"
  | .killed => "killed"
  | .failed _ => "failed"

def ProcState.taskStatus : ProcState → TaskStatus
  | .exited code => .completed (some code)
  | .killed => .killed
  | .failed reason => .failed reason
  | .running => .running

structure ProcHandle where
  command : String
  args : List String
  state : ProcState
  cancel : Nat

/-- How far a start has come after its child was spawned. -/
inductive StartStage where
  | spawned
  | recorded
  | registered
  | inserted
  deriving DecidableEq

/-- How far a monitor has come, with the state that it found. -/
inductive MonitorStage where
  | watching
  | ended (state : ProcState)
  | published (state : ProcState)
  | reported (state : ProcState)
  deriving DecidableEq

/-- A start and its monitor share the values of the child, and the ring of its lines. -/
structure Launch where
  command : String
  args : List String
  cancel : Nat
  logs : LogRing
  stage : StartStage
  monitor : MonitorStage

def Launch.description (launch : Launch) : String :=
  Text.trim (launch.command ++ " " ++ String.intercalate " " launch.args)

/-- What a task does while it holds the lock of the map. -/
inductive Critical where
  | insert (id : Uuid)
  | signal (id : Uuid)
  | logs (id : Uuid)
  | wait (id : Uuid)
  | list
  deriving DecidableEq

/-- How the wait of a monitor ends. A child without an exit code was stopped by a signal. -/
inductive Ending where
  | cancelled
  | exited (code : Option Int)
  | error (reason : String)
  deriving DecidableEq

def Ending.state : Ending → ProcState
  | .cancelled => .killed
  | .exited (some code) => .exited code
  | .exited none => .killed
  | .error reason => .failed reason

/-- The map of an engine with the task that holds its lock, the starts with their monitors, and
the tasks of the daemon. -/
structure ProcWorld where
  board : TaskBoard
  launches : Table Uuid Launch
  procs : Table Uuid ProcHandle
  holder : Option Critical

namespace ProcWorld

def start (maxCapacity : Nat) : ProcWorld := ⟨.start maxCapacity, ∅, ∅, none⟩

/-- The checks of a start, up to the spawn of the child. -/
def admits (gate : CapabilityGate) (command : String) (spawn : Option String) : Except String Unit :=
  if !gate.allows "desktop.shell.execute" then
    .error "desktop.proc.op: capability not granted (desktop.shell.execute)"
  else if Text.trim command = "" then .error "start: command is empty"
  else match spawn with
    | some error => .error ("spawn " ++ command ++ ": " ++ error)
    | none => .ok ()

def setLaunch (world : ProcWorld) (id : Uuid) (launch : Launch) : ProcWorld :=
  { world with launches := world.launches.insert id launch }

/-- The insertion of a handle ends a start. -/
def insert (world : ProcWorld) (id : Uuid) : ProcWorld :=
  match world.launches.lookup id with
  | some launch =>
      { world.setLaunch id { launch with stage := .inserted } with
        procs := world.procs.insert id ⟨launch.command, launch.args, .running, launch.cancel⟩ }
  | none => world

def signal (world : ProcWorld) (id : Uuid) : Except String Bool × ProcWorld :=
  match world.procs.lookup id with
  | none => (.error ("signal: unknown proc " ++ id.toText), world)
  | some handle =>
      if handle.state ≠ .running then (.ok false, world)
      else (.ok true, { world with
        board := { world.board with shared := world.board.shared.cancel handle.cancel } })

structure LogsResult where
  lines : List String
  total : Nat
  running : Bool

def logs (world : ProcWorld) (id : Uuid) (start max : Option Nat) : Except String LogsResult :=
  match world.procs.lookup id with
  | none => .error ("logs: unknown proc " ++ id.toText)
  | some handle =>
      let read := ((world.launches.lookup id).elim ⟨[], 0⟩ Launch.logs).read start max
      .ok ⟨read.1, read.2, decide (handle.state = .running)⟩

structure WaitResult where
  running : Bool
  exitCode : Option Int
  deriving DecidableEq

/-- One look of a wait at the map. It looks again while the process runs and the time is not up. -/
def wait (world : ProcWorld) (id : Uuid) (expired : Bool) : Option (Except String WaitResult) :=
  match world.procs.lookup id with
  | none => some (.error ("wait: unknown proc " ++ id.toText))
  | some handle => match handle.state with
    | .running => if expired then some (.ok ⟨true, none⟩) else none
    | .exited code => some (.ok ⟨false, some code⟩)
    | .killed => some (.ok ⟨false, none⟩)
    | .failed reason => some (.error ("wait: proc failed: " ++ reason))

structure ProcEntry where
  id : Uuid
  command : String
  args : List String
  status : String
  exitCode : Option Int
  deriving DecidableEq

def ProcEntry.ofHandle (id : Uuid) (handle : ProcHandle) : ProcEntry :=
  ⟨id, handle.command, handle.args, handle.state.label, match handle.state with
    | .exited code => some code
    | _ => none⟩

def list (world : ProcWorld) : List ProcEntry :=
  (world.procs.select (fun _ _ => true) fun first second => decide (first.1 ≤ second.1)).map
    fun row => .ofHandle row.1 row.2

/-- What happens when the lock is given back. -/
def perform (world : ProcWorld) : Critical → ProcWorld
  | .insert id => world.insert id
  | .signal id => (world.signal id).2
  | .logs _ | .wait _ | .list => world

/-- An insertion comes after the task was recorded and its token registered. -/
def awaits (world : ProcWorld) : Critical → Bool
  | .insert id => (world.launches.lookup id).any fun launch => launch.stage = .registered
  | _ => true

/-- The monitor looks for its handle only if the lock is free at that moment. -/
def publish (world : ProcWorld) (id : Uuid) (state : ProcState) : ProcWorld :=
  if world.holder.isNone then
    { world with procs := world.procs.update fun key handle =>
        if key = id then { handle with state := state } else handle }
  else world

end ProcWorld

/-- The steps of starts, readers, monitors, operations, and of everyone else who uses the tasks. -/
inductive ProcEvent where
  | start (id : Uuid) (cancel : Nat) (gate : CapabilityGate) (command : String)
      (args : List String) (spawn : Option String)
  | record (id : Uuid)
  | register (id : Uuid)
  | acquire (critical : Critical)
  | release
  | line (id : Uuid) (line : String)
  | ends (id : Uuid) (ending : Ending)
  | publish (id : Uuid)
  | report (id : Uuid)
  | tasks (event : TaskEvent)

namespace ProcWorld

/-- Other executors work on tasks of their own, and the user interface on all tasks. -/
def others (world : ProcWorld) : TaskEvent → Bool
  | .record id _ _ | .register id _ | .update id _ | .spawn id _ _ _ =>
      (world.launches.lookup id).isNone
  | _ => true

def step (world : ProcWorld) : ProcEvent → ProcWorld
  | .start id cancel gate command args spawn =>
      match admits gate command spawn, world.launches.lookup id with
      | .ok _, none => world.setLaunch id ⟨command, args, cancel, ⟨[], 0⟩, .spawned, .watching⟩
      | _, _ => world
  | .record id => match world.launches.lookup id with
      | some launch =>
          if launch.stage = .spawned then
            { world.setLaunch id { launch with stage := .recorded } with
              board := world.board.step (.record id (.other "proc") launch.description) }
          else world
      | none => world
  | .register id => match world.launches.lookup id with
      | some launch =>
          if launch.stage = .recorded then
            { world.setLaunch id { launch with stage := .registered } with
              board := world.board.step (.register id launch.cancel) }
          else world
      | none => world
  | .acquire critical =>
      if world.holder.isNone && world.awaits critical then { world with holder := some critical }
      else world
  | .release => match world.holder with
      | some critical => { world.perform critical with holder := none }
      | none => world
  | .line id line => match world.launches.lookup id with
      | some launch => world.setLaunch id { launch with logs := launch.logs.push line }
      | none => world
  | .ends id ending => match world.launches.lookup id with
      | some launch =>
          if launch.monitor = .watching ∧
              (ending = .cancelled → launch.cancel ∈ world.board.shared.cancelled) then
            world.setLaunch id { launch with monitor := .ended ending.state }
          else world
      | none => world
  | .publish id => match world.launches.lookup id with
      | some launch => match launch.monitor with
          | .ended state =>
              (world.publish id state).setLaunch id { launch with monitor := .published state }
          | _ => world
      | none => world
  | .report id => match world.launches.lookup id with
      | some launch => match launch.monitor with
          | .published state =>
              { world.setLaunch id { launch with monitor := .reported state } with
                board := world.board.step (.update id state.taskStatus) }
          | _ => world
      | none => world
  | .tasks event =>
      if world.others event then { world with board := world.board.step event } else world

end ProcWorld

end ProcEngine

end Daemon
