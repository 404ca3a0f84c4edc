import Mathlib.Data.Finset.Insert
import SynthHiresBridge.Daemon.Engines
import SynthHiresBridge.Data.Table
import SynthHiresBridge.Transition.Run

namespace Daemon

inductive TaskKind where
  | shellExec
  | fileRead
  | fileWrite
  | dbProxy
  | other (name : String)
  deriving DecidableEq

inductive TaskStatus where
  | running
  | cancelling
  | completed (code : Option Int)
  | failed (reason : String)
  | killed
  deriving DecidableEq

def isTerminal : TaskStatus → Bool
  | .completed _ | .failed _ | .killed => true
  | .running | .cancelling => false

structure TaskState where
  id : Uuid
  kind : TaskKind
  description : String
  status : TaskStatus
  startedAt : Nat
  finishedAt : Option Nat
  deriving DecidableEq

/-- The state that every executor records when it begins. -/
def TaskState.begun (id : Uuid) (kind : TaskKind) (description : String) (now : Nat) : TaskState :=
  ⟨id, kind, description, .running, now, none⟩

/-- A status is stored with the time of its end, if it is an end. -/
def TaskState.setStatus (now : Nat) (status : TaskStatus) (task : TaskState) : TaskState :=
  { task with status := status, finishedAt := if isTerminal status then some now else none }

/-- The first task of a number is changed. -/
def changeTask (tasks : List TaskState) (id : Uuid) (change : TaskState → TaskState) :
    List TaskState :=
  tasks.replaceF fun task => if task.id = id then some (change task) else none

@[irreducible] def newestTasks (tasks : List TaskState) : List TaskState := tasks.drop (tasks.length - 200)

/-- A finished task stays for a while. -/
def keepsTask (now ttl : Nat) (task : TaskState) : Bool :=
  match task.finishedAt with
  | some finishedAt => decide (now - finishedAt < ttl)
  | none => true

/-- The tasks and the cancellation tokens that all parts of the daemon share. -/
structure SharedTasks where
  now : Nat
  tasks : List TaskState
  cancellations : Table Uuid Nat
  /-- The tokens that were cancelled. -/
  cancelled : Finset Nat

namespace SharedTasks

def registerGlobalCancellation (shared : SharedTasks) (id : Uuid) (token : Nat) : SharedTasks :=
  { shared with cancellations := shared.cancellations.insert id token }

def cancel (shared : SharedTasks) (token : Nat) : SharedTasks :=
  { shared with cancelled := insert token shared.cancelled }

def cancelGlobalTask (shared : SharedTasks) (id : Uuid) : Bool × SharedTasks :=
  match shared.cancellations.lookup id with
  | some token => (true, shared.cancel token)
  | none => (false, shared)

def unregisterGlobalCancellation (shared : SharedTasks) (id : Uuid) : SharedTasks :=
  { shared with cancellations := shared.cancellations.erase id }

def recordGlobalTask (shared : SharedTasks) (state : TaskState) : SharedTasks :=
  { shared with
    tasks := newestTasks <|
      if shared.tasks.any fun task => task.id = state.id
        then changeTask shared.tasks state.id fun _ => state
        else shared.tasks ++ [state] }

/-- The part of an update under the lock of the tasks. An update to an end then takes the token
out under the lock of the tokens. -/
def updateGlobalTask (shared : SharedTasks) (id : Uuid) (status : TaskStatus) : SharedTasks :=
  { shared with tasks := changeTask shared.tasks id (TaskState.setStatus shared.now status) }

def find (shared : SharedTasks) (id : Uuid) : Option TaskState :=
  shared.tasks.find? fun task => task.id = id

end SharedTasks

inductive TaskHandle where
  | childProcess
  | cancellableFuture (token : Nat)

/-- The registry of the user interface. -/
structure TaskRegistry where
  maxCapacity : Nat
  states : List TaskState
  handles : Table Uuid TaskHandle

namespace TaskRegistry

def new (maxCapacity : Nat) : TaskRegistry := ⟨maxCapacity, [], ∅⟩

def spawnTask (registry : TaskRegistry) (state : TaskState) (handle : TaskHandle) : TaskRegistry :=
  let states := if registry.states.length ≥ registry.maxCapacity then registry.states.drop 1
    else registry.states
  { registry with states := states ++ [state], handles := registry.handles.insert state.id handle }

def refresh (registry : TaskRegistry) (shared : SharedTasks) : TaskRegistry :=
  { registry with states := shared.tasks }

/-- What the user sees after the next refresh. -/
def displayed (registry : TaskRegistry) (shared : SharedTasks) (id : Uuid) : Option TaskStatus :=
  ((registry.refresh shared).states.find? fun task => task.id = id).map TaskState.status

/-- The first part of `kill_task` sends the signal, and tells the status that it will mark. -/
def killSignal (registry : TaskRegistry) (shared : SharedTasks) (id : Uuid) :
    Option TaskStatus × TaskRegistry × SharedTasks :=
  match registry.handles.lookup id with
  | some .childProcess => (some .killed, { registry with handles := registry.handles.erase id }, shared)
  | some (.cancellableFuture token) =>
      (some .cancelling, { registry with handles := registry.handles.erase id }, shared.cancel token)
  | none =>
      let cancelled := shared.cancelGlobalTask id
      (if cancelled.1 then some .cancelling else none, registry, cancelled.2)

/-- The registry's own part of `mark_status`. -/
def markStatus (registry : TaskRegistry) (now : Nat) (id : Uuid) (status : TaskStatus) : TaskRegistry :=
  { registry with
    states := changeTask registry.states id (TaskState.setStatus now status)
    handles := if isTerminal status then registry.handles.erase id else registry.handles }

def cleanupStaleTasks (registry : TaskRegistry) (now ttl : Nat) : TaskRegistry :=
  { registry with states := registry.states.filter (keepsTask now ttl) }

end TaskRegistry

/-- The tasks, the registry of the user interface, the kill that runs on it, and the updates that
still have to take a token out. -/
structure TaskBoard where
  shared : SharedTasks
  registry : TaskRegistry
  killing : Option (Uuid × TaskStatus)
  unregistering : List Uuid

/-- What executors and the user interface do. -/
inductive TaskEvent where
  | passes (elapsed : Nat)
  | record (id : Uuid) (kind : TaskKind) (description : String)
  | register (id : Uuid) (token : Nat)
  | update (id : Uuid) (status : TaskStatus)
  | unregister (id : Uuid)
  | spawn (id : Uuid) (kind : TaskKind) (description : String) (handle : TaskHandle)
  | refresh
  | killSignal (id : Uuid)
  | killMark
  | mark (id : Uuid) (status : TaskStatus)
  | cleanup (ttl : Nat)

namespace TaskBoard

def start (maxCapacity : Nat) : TaskBoard := ⟨⟨0, [], ∅, ∅⟩, .new maxCapacity, none, []⟩

def find (board : TaskBoard) (id : Uuid) : Option TaskState := board.shared.find id

/-- An update stores a status, and an end leaves a token to take out. -/
def update (board : TaskBoard) (id : Uuid) (status : TaskStatus) : TaskBoard :=
  { board with
    shared := board.shared.updateGlobalTask id status
    unregistering := if isTerminal status then id :: board.unregistering else board.unregistering }

def mark (board : TaskBoard) (id : Uuid) (status : TaskStatus) : TaskBoard :=
  let updated := board.update id status
  { updated with registry := board.registry.markStatus board.shared.now id status }

def record (board : TaskBoard) (state : TaskState) : TaskBoard :=
  { board with shared := board.shared.recordGlobalTask state }

def step (board : TaskBoard) : TaskEvent → TaskBoard
  | .passes elapsed => { board with shared := { board.shared with now := board.shared.now + elapsed } }
  | .record id kind description => board.record (.begun id kind description board.shared.now)
  | .register id token =>
      { board with shared := board.shared.registerGlobalCancellation id token }
  | .update id status => board.update id status
  | .unregister id =>
      if id ∈ board.unregistering then
        { board with
          shared := board.shared.unregisterGlobalCancellation id
          unregistering := board.unregistering.erase id }
      else board
  | .killMark => match board.killing with
      | some (id, status) => { board.mark id status with killing := none }
      | none => board
  -- a kill keeps the registry to itself until it has marked the task
  | .spawn id kind description handle =>
      if board.killing.isSome then board
      else
        let state := TaskState.begun id kind description board.shared.now
        { board.record state with registry := board.registry.spawnTask state handle }
  | .refresh =>
      if board.killing.isSome then board
      else { board with registry := board.registry.refresh board.shared }
  | .killSignal id =>
      if board.killing.isSome then board
      else
        let signalled := board.registry.killSignal board.shared id
        { board with
          shared := signalled.2.2
          registry := signalled.2.1
          killing := signalled.1.map fun status => (id, status) }
  | .mark id status => if board.killing.isSome then board else board.mark id status
  | .cleanup ttl =>
      if board.killing.isSome then board
      else
        { board with
          shared := { board.shared with
            tasks := board.shared.tasks.filter (keepsTask board.shared.now ttl) }
          registry := board.registry.cleanupStaleTasks board.shared.now ttl }

/-- The task that an event records. -/
def recorded : TaskEvent → Option Uuid
  | .record id _ _ | .spawn id _ _ _ => some id
  | _ => none

/-- The status that an event writes over a task. -/
def written (board : TaskBoard) : TaskEvent → Option (Uuid × TaskStatus)
  | .update id status => some (id, status)
  | .killMark => board.killing
  | .mark id status => if board.killing.isSome then none else some (id, status)
  | _ => none

end TaskBoard

/-- The shared tasks and the registry of the user interface, between two calls. -/
structure TaskTables where
  shared : SharedTasks
  registry : TaskRegistry

/-- A call runs to its end before the next one. -/
inductive TaskCall where
  | passes (elapsed : Nat)
  | recordGlobalTask (state : TaskState)
  | updateGlobalTask (id : Uuid) (status : TaskStatus)
  | registerGlobalCancellation (id : Uuid) (token : Nat)
  | spawnTask (state : TaskState) (handle : TaskHandle)
  | states
  | killTask (id : Uuid)
  | markStatus (id : Uuid) (status : TaskStatus)
  | cleanupStaleTasks (ttl : Nat)

namespace TaskTables

def start (maxCapacity : Nat) : TaskTables := ⟨⟨0, [], ∅, ∅⟩, .new maxCapacity⟩

def record (tables : TaskTables) (state : TaskState) : TaskTables :=
  { tables with shared := tables.shared.recordGlobalTask state }

def update (tables : TaskTables) (id : Uuid) (status : TaskStatus) : TaskTables :=
  let updated := tables.shared.updateGlobalTask id status
  { tables with
    shared := if isTerminal status then updated.unregisterGlobalCancellation id else updated }

def mark (tables : TaskTables) (id : Uuid) (status : TaskStatus) : TaskTables :=
  { tables with registry := tables.registry.markStatus tables.shared.now id status }.update id status

/-- A kill sends its signal and then marks the task. -/
def killTask (tables : TaskTables) (id : Uuid) : Bool × TaskTables :=
  let signalled := tables.registry.killSignal tables.shared id
  let sent : TaskTables := ⟨signalled.2.2, signalled.2.1⟩
  match signalled.1 with
  | none => (false, sent)
  | some status => (true, sent.mark id status)

def cleanup (tables : TaskTables) (ttl : Nat) : TaskTables :=
  { shared := { tables.shared with
      tasks := tables.shared.tasks.filter (keepsTask tables.shared.now ttl) }
    registry := tables.registry.cleanupStaleTasks tables.shared.now ttl }

def step (tables : TaskTables) : TaskCall → TaskTables
  | .passes elapsed => { tables with shared := { tables.shared with now := tables.shared.now + elapsed } }
  | .recordGlobalTask state => tables.record state
  | .updateGlobalTask id status => tables.update id status
  | .registerGlobalCancellation id token =>
      { tables with shared := tables.shared.registerGlobalCancellation id token }
  | .spawnTask state handle =>
      { tables.record state with registry := tables.registry.spawnTask state handle }
  | .states => { tables with registry := tables.registry.refresh tables.shared }
  | .killTask id => (tables.killTask id).2
  | .markStatus id status => tables.mark id status
  | .cleanupStaleTasks ttl => tables.cleanup ttl

/-- The states that a caller is shown. -/
def states (tables : TaskTables) : List TaskState :=
  (tables.registry.refresh tables.shared).states

end TaskTables

end Daemon
