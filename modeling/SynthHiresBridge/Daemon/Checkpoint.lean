import Mathlib.Algebra.GroupWithZero.Nat
import SynthHiresBridge.Daemon.FsOps

namespace Daemon

open Json Posix

def maxCheckpoints : Nat := 200
def maxTotalBytes : Nat := 512 * 1024 * 1024
def maxFileBytes : Nat := 32 * 1024 * 1024

structure CheckpointEntry where
  actionId : String
  capability : String
  path : String
  ts : Nat
  existed : Bool
  size : Nat
  hash : String
  truncated : Bool
  deriving DecidableEq

/-- A store has an index in the order of its writes and a blob for each time stamp. -/
structure CheckpointStore where
  entries : List CheckpointEntry
  blobs : List (Nat × List UInt8)
  deriving DecidableEq

namespace CheckpointStore

def empty : CheckpointStore := ⟨[], []⟩

def writeBlob (store : CheckpointStore) (ts : Nat) (bytes : List UInt8) : CheckpointStore :=
  { store with blobs := (ts, bytes) :: store.blobs.filter (·.1 ≠ ts) }

/-- The entry that leaves the store first is the oldest one that was not just written. -/
def victim (entries : List CheckpointEntry) (skipTs : Nat) : Option CheckpointEntry :=
  entries.foldl (fun best entry =>
    if entry.ts = skipTs then best
    else match best with
      | none => some entry
      | some held => if entry.ts < held.ts then some entry else best) none

/-- Entries leave the store until it keeps its limits, and each round drops at least one. -/
def enforceFrom (skipTs : Nat) : Nat → CheckpointStore → CheckpointStore
  | 0, store => store
  | rounds + 1, store =>
      if store.entries.length ≤ maxCheckpoints ∧
          (store.entries.map CheckpointEntry.size).sum ≤ maxTotalBytes then store
      else match victim store.entries skipTs with
        | none => store
        | some gone => enforceFrom skipTs rounds
            ⟨store.entries.filter (·.ts ≠ gone.ts), store.blobs.filter (·.1 ≠ gone.ts)⟩

def enforceLimits (store : CheckpointStore) (skipTs : Nat) : CheckpointStore :=
  enforceFrom skipTs store.entries.length store

/-- A capture keeps what stands at a path before an action changes it. -/
def capture (host : Host) (fault : Option String) (store : CheckpointStore) (fs : FileSystem)
    (ts : Nat) (actionId capability path : String) :
    Except String CheckpointEntry × CheckpointStore :=
  match fault with
  | some reason => (.error ("io error: " ++ reason), store)
  | none =>
      let seen := match fs.canonicalize (.ofText path) with
        | .error _ => none
        | .ok real => (fs.lookup real).map fun node => (real, node)
      let (entry, store) : CheckpointEntry × CheckpointStore := match seen with
        | some (real, .dir) =>
            (⟨actionId, capability, path, ts, true, (fs.children real).length, "", true⟩, store)
        | some (_, .file bytes) =>
            if maxFileBytes < bytes.length then
              (⟨actionId, capability, path, ts, true, bytes.length, "", true⟩, store)
            else (⟨actionId, capability, path, ts, true, bytes.length, host.sha256 bytes, false⟩,
              store.writeBlob ts bytes)
        | _ => (⟨actionId, capability, path, ts, false, 0, "", false⟩, store)
      (.ok entry, enforceLimits { store with entries := store.entries ++ [entry] } ts)

/-- The entries are listed from the newest to the oldest. -/
def list (store : CheckpointStore) : List CheckpointEntry :=
  store.entries.insertionSort fun first second => second.ts ≤ first.ts

/-- The pre-image of an entry is put back at its path. -/
def materialize (host : Host) (store : CheckpointStore) (fs : FileSystem)
    (entry : CheckpointEntry) : Except String Unit × FileSystem :=
  let target := PathBuf.ofText entry.path
  let failed := fun errno => Except.error ("io error: " ++ errnoText errno)
  if entry.existed && !entry.truncated then
    match store.blobs.lookup entry.ts with
    | none => (failed .notFound, fs)
    | some bytes =>
        if entry.hash ≠ "" ∧ host.sha256 bytes ≠ entry.hash then
          (.error "io error: blob corrupto: hash SHA-256 no coincide", fs)
        else
          let (made, fs) : Except Errno Unit × FileSystem := match target.parent with
            | none => (.ok (), fs)
            | some parent => fs.createDirAll parent
          match made with
          | .error errno => (failed errno, fs)
          | .ok _ => match fs.writeFile target bytes with
            | .error errno => (failed errno, fs)
            | .ok written => (.ok (), written)
  else if entry.existed then
    (.error ("io error: pre-imagen demasiado grande para restaurar " ++
      "(content no almacenado)"), fs)
  else if fs.isDir target then
    match fs.removeDirAll target with
    | (.error errno, removed) => (failed errno, removed)
    | (.ok _, removed) => (.ok (), removed)
  else if fs.pathExists target then
    match fs.removeFile target with
    | .error errno => (failed errno, fs)
    | .ok removed => (.ok (), removed)
  else (.ok (), fs)

/-- A restore captures the current state first and then puts the pre-image back. -/
def restore (host : Host) (fault : Option String) (store : CheckpointStore) (fs : FileSystem)
    (rollbackTs ts : Nat) : Except String CheckpointEntry × CheckpointStore × FileSystem :=
  match store.entries.find? (·.ts = ts) with
  | none => (.error ("io error: checkpoint " ++ toString ts ++ " no existe (¿evicted?)"), store, fs)
  | some entry =>
      match capture host fault store fs rollbackTs "restore" "desktop.fs.restore" entry.path with
      | (.error reason, store) => (.error reason, store, fs)
      | (.ok rollback, store) => match materialize host store fs entry with
        | (.error reason, fs) => (.error reason, store, fs)
        | (.ok _, fs) => (.ok rollback, store, fs)

end CheckpointStore

end Daemon
