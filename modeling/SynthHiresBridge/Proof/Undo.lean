import SynthHiresBridge.Proof.Archive

namespace Daemon

open Posix Transition

namespace CheckpointStore

/-- A blob is intact when its digest is the one its entry records. -/
def Intact (host : Host) (store : CheckpointStore) (entry : CheckpointEntry)
    (bytes : List UInt8) : Prop :=
  store.blobs.lookup entry.ts = some bytes ∧ (entry.hash = "" ∨ host.sha256 bytes = entry.hash)

/-- A pre-image with content needs its blob and a place for a file, and a missing target needs a path
that can be removed. -/
def Materializable (host : Host) (store : CheckpointStore) (fs : FileSystem)
    (entry : CheckpointEntry) : Prop :=
  if entry.existed = true then
    entry.truncated = false ∧ (∃ bytes, Intact host store entry bytes) ∧
      fs.Writable (.ofText entry.path)
  else fs.Removable (.ofText entry.path)

section Materialize

variable (host : Host) (store : CheckpointStore) (fs : FileSystem) (entry : CheckpointEntry)

/-- An intact blob is written to its path. -/
theorem materialize_stored (stored : entry.stored = true) (bytes : List UInt8)
    (intact : Intact host store entry bytes) :
    materialize host store fs entry = match fs.writeWithParents (.ofText entry.path) bytes with
      | (.error errno, fs) => (.error ("io error: " ++ errnoText errno), fs)
      | (.ok _, fs) => (.ok (), fs) := by
  have digest : ¬ (entry.hash ≠ "" ∧ host.sha256 bytes ≠ entry.hash) := by
    rintro ⟨named, other⟩
    exact intact.2.elim named other
  unfold materialize FileSystem.writeWithParents FileSystem.makeParents
  rw [CheckpointEntry.stored] at stored
  simp only [stored, if_true, intact.1, digest, if_false]
  cases (PathBuf.ofText entry.path).parent with
  | none => cases wrote : fs.writeFile (.ofText entry.path) bytes <;> simp only [wrote]
  | some parent =>
      cases parents : fs.createDirAll parent with
      | mk outcome made =>
          cases outcome with
          | error errno => simp only [parents]
          | ok _ =>
              cases wrote : made.writeFile (.ofText entry.path) bytes <;> simp only [parents, wrote]

/-- A blob that is missing or not intact is not written. -/
theorem materialize_broken (stored : entry.stored = true)
    (broken : ∀ bytes, ¬ Intact host store entry bytes) :
    ∃ reason, materialize host store fs entry = (.error reason, fs) := by
  unfold materialize
  rw [CheckpointEntry.stored] at stored
  simp only [stored, if_true]
  cases held : store.blobs.lookup entry.ts with
  | none => exact ⟨_, rfl⟩
  | some bytes =>
      have digest : entry.hash ≠ "" ∧ host.sha256 bytes ≠ entry.hash := by
        refine ⟨fun empty => broken bytes ⟨held, .inl empty⟩, fun same => ?_⟩
        exact broken bytes ⟨held, .inr same⟩
      simp only
      rw [if_pos digest]
      exact ⟨_, rfl⟩

theorem materialize_truncated (existed : entry.existed = true) (truncated : entry.truncated = true) :
    ∃ reason, materialize host store fs entry = (.error reason, fs) := by
  unfold materialize
  simp only [existed, truncated, Bool.not_true, Bool.and_false, Bool.false_eq_true, if_false, if_true]
  exact ⟨_, rfl⟩

/-- A removable path is removed, and any other path is an error. -/
theorem materialize_absent (absent : entry.existed = false) :
    (fs.Removable (.ofText entry.path) → ∃ removed, materialize host store fs entry =
        (.ok (), removed) ∧ fs.Cleared (.ofText entry.path) removed) ∧
      (¬ fs.Removable (.ofText entry.path) →
        ∃ reason, (materialize host store fs entry).1 = .error reason) := by
  unfold materialize
  simp only [absent, Bool.false_and, Bool.false_eq_true, if_false]
  cases dir : fs.isDir (.ofText entry.path) with
  | true =>
      obtain ⟨removes, fails⟩ := fs.removeDirAll_iff (.ofText entry.path) dir
      simp only [if_true]
      constructor
      · intro removable
        obtain ⟨place, stands, nested, done⟩ := removes removable
        rw [done]
        exact ⟨_, rfl, .inr ⟨place, stands, nested, rfl⟩⟩
      · intro stuck
        obtain ⟨reason, failed⟩ := fails stuck
        cases ran : fs.removeDirAll (.ofText entry.path) with
        | mk outcome removed =>
            rw [ran] at failed
            simp only at failed
            subst failed
            exact ⟨_, rfl⟩
  | false =>
      have removable : fs.Removable (.ofText entry.path) := fun yes => by simp [dir] at yes
      refine ⟨fun _ => ?_, fun stuck => absurd removable stuck⟩
      simp only [Bool.false_eq_true, if_false]
      cases present : fs.pathExists (.ofText entry.path) with
      | false => exact ⟨fs, rfl, .inl ⟨present, rfl⟩⟩
      | true =>
          obtain ⟨place, stands, solid, done⟩ := fs.removeFile_of_exists _ present dir
          rw [done]
          refine ⟨_, rfl, .inr ⟨place, stands, ?_, rfl⟩⟩
          rintro rfl
          simp at solid

/-- A pre-image is put back exactly when it can be. -/
theorem materialize_iff :
    (materialize host store fs entry).1 = .ok () ↔ Materializable host store fs entry := by
  unfold Materializable
  cases existed : entry.existed with
  | false =>
      obtain ⟨removes, fails⟩ := materialize_absent host store fs entry existed
      simp only [Bool.false_eq_true, if_false]
      by_cases removable : fs.Removable (.ofText entry.path)
      · obtain ⟨removed, done, -⟩ := removes removable
        simp [done, removable]
      · obtain ⟨reason, failed⟩ := fails removable
        simp [failed, removable]
  | true =>
      simp only [if_true]
      cases truncated : entry.truncated with
      | true =>
          obtain ⟨reason, failed⟩ := materialize_truncated host store fs entry existed truncated
          simp [failed]
      | false =>
          have stored : entry.stored = true := by simp [CheckpointEntry.stored, existed, truncated]
          by_cases whole : ∃ bytes, Intact host store entry bytes
          · obtain ⟨bytes, intact⟩ := whole
            obtain ⟨writes, fails⟩ := fs.writeWithParents_iff (.ofText entry.path) bytes
            rw [materialize_stored host store fs entry stored bytes intact]
            by_cases writable : fs.Writable (.ofText entry.path)
            · obtain ⟨written, done, -⟩ := writes writable
              simp only [done, writable, and_true, true_and, true_iff]
              exact ⟨bytes, intact⟩
            · obtain ⟨errno, failed⟩ := fails writable
              cases ran : fs.writeWithParents (.ofText entry.path) bytes with
              | mk outcome made =>
                  rw [ran] at failed
                  simp only at failed
                  subst failed
                  simp [writable]
          · obtain ⟨reason, failed⟩ := materialize_broken host store fs entry stored
              fun bytes intact => whole ⟨bytes, intact⟩
            simp [failed, whole]

end Materialize

/-- A restore of a listed entry captures its target and then puts its pre-image back. -/
theorem restore_found (host : Host) (store : CheckpointStore) (fs : FileSystem) (now ts : Nat)
    (entry : CheckpointEntry) (found : store.entries.find? (·.ts = ts) = some entry) :
    restore host none store fs now ts =
      let new := record host fs now "restore" "desktop.fs.restore" entry.path
      let ran := materialize host (enforceLimits (store.add new) now) fs entry
      (ran.1.map fun _ => new.entry, enforceLimits (store.add new) now, ran.2) := by
  unfold restore
  simp only [found, capture_eq]
  cases materialize host (enforceLimits (store.add (record host fs now "restore"
    "desktop.fs.restore" entry.path)) now) fs entry with
  | mk outcome machine => cases outcome <;> rfl

end CheckpointStore

namespace Archive

open CheckpointStore

/-- A restore succeeds, and the machine it leaves meets a condition. -/
def Restores (host : Host) (archive : Archive) (now ts : Nat) (leaves : FileSystem → Prop) : Prop :=
  (∃ rollback, (archive.store.restore host none archive.fs now ts).1 = .ok rollback) ∧
    leaves (archive.store.restore host none archive.fs now ts).2.2

theorem not_restores (host : Host) (archive : Archive) (now ts : Nat) (leaves : FileSystem → Prop)
    (failed : (archive.store.restore host none archive.fs now ts).1.isOk = false) :
    ¬ Restores host archive now ts leaves := by
  rintro ⟨⟨rollback, done⟩, -⟩
  rw [done] at failed
  cases failed

/-- The entries from an entry on leave room for the rollback of its restore. -/
def Room (host : Host) (archive : Archive) (now : Nat) (entry : CheckpointEntry) : Prop :=
  WithinLimits (archive.store.entries.filter (entry.ts ≤ ·.ts) ++
    [(record host archive.fs now "restore" "desktop.fs.restore" entry.path).entry])

section Restore

variable (host : Host) (archive : Archive) (now : Nat) (entry : CheckpointEntry)

theorem restores_iff (found : archive.store.entries.find? (·.ts = entry.ts) = some entry)
    (leaves : FileSystem → Prop) :
    Restores host archive now entry.ts leaves ↔
      Materializable host (enforceLimits (archive.store.add
        (record host archive.fs now "restore" "desktop.fs.restore" entry.path)) now) archive.fs
          entry ∧
      leaves (materialize host (enforceLimits (archive.store.add
        (record host archive.fs now "restore" "desktop.fs.restore" entry.path)) now) archive.fs
          entry).2 := by
  rw [Restores, restore_found host archive.store archive.fs now entry.ts entry found,
    ← materialize_iff]
  cases ran : materialize host (enforceLimits (archive.store.add (record host archive.fs now
    "restore" "desktop.fs.restore" entry.path)) now) archive.fs entry with
  | mk outcome machine => cases outcome <;> simp [Except.map, ran]

/-- A missing target is restored by removing what stands there. -/
theorem restores_absent (found : archive.store.entries.find? (·.ts = entry.ts) = some entry)
    (absent : entry.existed = false) :
    Restores host archive now entry.ts (fun machine =>
      machine.pathExists (.ofText entry.path) = false) ↔
      archive.fs.Removable (.ofText entry.path) := by
  rw [restores_iff host archive now entry found]
  simp only [Materializable, absent, Bool.false_eq_true, if_false]
  refine ⟨fun both => both.1, fun removable => ⟨removable, ?_⟩⟩
  obtain ⟨removed, done, cleared⟩ := (materialize_absent host _ archive.fs entry absent).1 removable
  rw [done]
  exact cleared.gone

/-- A file can be put back when its entry stays while the rollback is captured. -/
theorem materializable_stored (ordered : Chronological archive.store.entries)
    (listed : entry ∈ archive.store.entries) (earlier : ∀ other ∈ archive.store.entries, other.ts < now)
    (stored : entry.stored = true) (bytes : List UInt8)
    (held : archive.store.blobs.lookup entry.ts = some bytes)
    (digest : host.sha256 bytes = entry.hash) :
    (Room host archive now entry ∧ archive.fs.Writable (.ofText entry.path) ↔
      Materializable host (enforceLimits (archive.store.add
        (record host archive.fs now "restore" "desktop.fs.restore" entry.path)) now) archive.fs
          entry) ∧
      (Room host archive now entry → Intact host (enforceLimits (archive.store.add
        (record host archive.fs now "restore" "desktop.fs.restore" entry.path)) now) entry bytes) := by
  have named := record_ts host archive.fs now "restore" "desktop.fs.restore" entry.path
  have stays := stays_iff (archive.store.add
    (record host archive.fs now "restore" "desktop.fs.restore" entry.path)) archive.store.entries _
    rfl (add_chronological host _ archive.fs now _ _ entry.path ordered earlier) entry listed
  rw [named] at stays
  change _ ↔ Room host archive now entry at stays
  have lookup := enforceLimits_lookup (archive.store.add
    (record host archive.fs now "restore" "desktop.fs.restore" entry.path)) now entry.ts
  rw [add_lookup_other _ _ _ (by rw [named]; exact (earlier entry listed).ne), held] at lookup
  generalize enforceLimits (archive.store.add
    (record host archive.fs now "restore" "desktop.fs.restore" entry.path)) now = after at *
  have existed : entry.existed = true ∧ entry.truncated = false := by
    simpa [CheckpointEntry.stored] using stored
  have intact : Room host archive now entry → Intact host after entry bytes := by
    intro room
    rw [if_neg (stays.mpr room)] at lookup
    exact ⟨lookup, .inr digest⟩
  refine ⟨?_, intact⟩
  simp only [Materializable, existed.1, if_true]
  constructor
  · exact fun both => ⟨existed.2, ⟨bytes, intact both.1⟩, both.2⟩
  · rintro ⟨-, ⟨other, kept, -⟩, writable⟩
    refine ⟨stays.mp fun leaves => ?_, writable⟩
    rw [lookup, if_pos leaves] at kept
    cases kept

theorem restores_stored (found : archive.store.entries.find? (·.ts = entry.ts) = some entry)
    (ordered : Chronological archive.store.entries)
    (listed : entry ∈ archive.store.entries) (earlier : ∀ other ∈ archive.store.entries, other.ts < now)
    (stored : entry.stored = true) (bytes : List UInt8)
    (held : archive.store.blobs.lookup entry.ts = some bytes)
    (digest : host.sha256 bytes = entry.hash) :
    Restores host archive now entry.ts (fun machine =>
      machine.read (.ofText entry.path) = .ok bytes) ↔
      Room host archive now entry ∧ archive.fs.Writable (.ofText entry.path) := by
  obtain ⟨possible, intact⟩ := materializable_stored host archive now entry ordered listed earlier
    stored bytes held digest
  rw [restores_iff host archive now entry found, ← possible]
  refine ⟨fun both => both.1, fun both => ⟨both, ?_⟩⟩
  obtain ⟨written, done, reads⟩ := (archive.fs.writeWithParents_iff _ bytes).1 both.2
  rw [materialize_stored host _ archive.fs entry stored bytes (intact both.1), done]
  exact reads

end Restore

/-- The entry of the first file. -/
def firstEntry : CheckpointEntry := ⟨"1", "desktop.fs.write", "/a", 1, true, 1, "a", false⟩

/-- The first file has grown to the size of the whole budget. -/
def grown : FileSystem := FileSystem.empty.put ["a"] (.file (List.replicate maxTotalBytes 0))

theorem grown_lookup : grown.lookup ["a"] = some (.file (List.replicate maxTotalBytes 0)) := by
  rw [grown, FileSystem.lookup_put _ _ _ (by decide), if_pos rfl]

end Archive

end Daemon
