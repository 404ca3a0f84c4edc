import SynthHiresBridge.Proof.Undo

namespace Daemon

open Posix CheckpointStore

namespace CheckpointStore

/-- A full index holds the listings of one directory. -/
def fullIndex : CheckpointStore :=
  ⟨(List.range maxCheckpoints).map fun index =>
    ⟨"1", "desktop.fs.delete", "/d", index + 1, true, 0, "", true⟩, []⟩

/-- A target is back when everything at its entry and below is as it was, and a missing target is
missing again. -/
def SameTarget (before after : FileSystem) (path : PathBuf) : Prop :=
  (∀ place, before.entryOf path = .ok place → ∀ location, place <+: location →
    after.lookup location = before.lookup location) ∧
  (before.pathExists path = false → after.pathExists path = false)

theorem SameTarget.refl (fs : FileSystem) (path : PathBuf) : SameTarget fs fs path :=
  ⟨fun _ _ _ _ => rfl, fun absent => absent⟩

/-- No link stands at the last name of a path. -/
def Unlinked (fs : FileSystem) (path : PathBuf) : Prop :=
  ∀ place target, fs.entryOf path = .ok place → fs.lookup place ≠ some (.symlink target)

/-- The first restore can be undone: its target was missing, or it was a small file whose rollback is
not overwritten by the rollback of the second restore. -/
def Returnable (store : CheckpointStore) (fs : FileSystem) (now later : Nat)
    (entry : CheckpointEntry) : Prop :=
  fs.pathExists (.ofText entry.path) = false ∨
    ∃ bytes, fs.read (.ofText entry.path) = .ok bytes ∧ bytes.length ≤ maxFileBytes ∧
      (now ≠ later ∨ entry.existed = false ∨ ∀ other, store.blobs.lookup entry.ts = some other →
        other.length ≤ maxFileBytes → other = bytes)

theorem enforceLimits_within (store : CheckpointStore) (skipTs : Nat)
    (within : WithinLimits store.entries) : enforceLimits store skipTs = store := by
  rw [enforceLimits]
  cases store.entries.length with
  | zero => rfl
  | succ rounds => rw [enforceFrom_succ, if_pos within]

/-- A missing target without a link has nothing at its entry. -/
theorem lookup_missing (fs : FileSystem) (path : PathBuf) (unlinked : Unlinked fs path)
    (absent : fs.pathExists path = false) (place : Location)
    (stands : fs.entryOf path = .ok place) : fs.lookup place = none := by
  cases present : fs.lookup place with
  | none => rfl
  | some node =>
      have resolved := fs.canonicalize_of_entry path place node stands present
        fun target link => unlinked place target stands (by rw [present, link])
      simp [FileSystem.pathExists, FileSystem.metadata, resolved, Except.bind, present] at absent

/-- A file that a path reads stands at its entry. -/
theorem entry_of_read (fs : FileSystem) (path : PathBuf) (unlinked : Unlinked fs path)
    (bytes : List UInt8) (read : fs.read path = .ok bytes) :
    ∃ place, fs.entryOf path = .ok place ∧ fs.lookup place = some (.file bytes) := by
  obtain ⟨place, stands, file | ⟨target, link⟩⟩ := fs.entry_of_metadata path _
    (fs.metadata_of_read path bytes read)
  · exact ⟨place, stands, file⟩
  · exact absurd link (unlinked place target stands)

/-- Nothing is done for a missing target that is still missing. -/
theorem materialize_missing (host : Host) (store : CheckpointStore) (fs : FileSystem)
    (entry : CheckpointEntry) (absent : entry.existed = false)
    (missing : fs.pathExists (.ofText entry.path) = false) :
    materialize host store fs entry = (.ok (), fs) := by
  have flat : fs.isDir (.ofText entry.path) = false := by
    unfold FileSystem.pathExists at missing
    unfold FileSystem.isDir
    cases seen : fs.metadata (.ofText entry.path) with
    | error _ => rfl
    | ok node => rw [seen] at missing; cases missing
  simp [materialize, absent, flat, missing]

/-- A file written over a file at the entry of a target brings it back. -/
theorem sameTarget_put (before machine : FileSystem) (path : PathBuf) (place : Location)
    (bytes : List UInt8) (stands : before.entryOf path = .ok place)
    (file : before.lookup place = some (.file bytes)) (fits : machine.Puttable place) :
    SameTarget before (machine.put place (.file bytes)) path := by
  constructor
  · intro own same location below
    obtain rfl : place = own := Except.ok.inj (stands.symm.trans same)
    rw [FileSystem.lookup_put machine place _ fits]
    by_cases atop : location = place
    · rw [if_pos atop, atop, file]
    · rw [if_neg atop,
        machine.lookup_below_plain place location below (Ne.symm atop) fits.2.2,
        before.lookup_below_plain place location below (Ne.symm atop) (by simp [file])]
  · intro absent
    have resolved := before.canonicalize_of_entry path place _ stands file (by simp)
    simp [FileSystem.pathExists, FileSystem.metadata, resolved, Except.bind, file] at absent

section Again

variable (host : Host) (held : CheckpointStore) (fs machine : FileSystem)
  (entry : CheckpointEntry) (done : materialize host held fs entry = (.ok (), machine))

include done

/-- A first restore writes the intact blob of its entry, or it clears a path. -/
theorem materialize_ok :
    (∃ bytes, entry.stored = true ∧ Intact host held entry bytes ∧
        fs.writeWithParents (.ofText entry.path) bytes = (.ok (), machine) ∧
        machine.read (.ofText entry.path) = .ok bytes) ∨
      (entry.existed = false ∧ fs.Cleared (.ofText entry.path) machine) := by
  have possible := (materialize_iff host held fs entry).mp (by rw [done])
  unfold Materializable at possible
  cases existed : entry.existed with
  | false =>
      simp only [existed, Bool.false_eq_true, if_false] at possible
      obtain ⟨removed, same, cleared⟩ := (materialize_absent host held fs entry existed).1 possible
      rw [done] at same
      obtain rfl : machine = removed := congrArg Prod.snd same
      exact .inr ⟨rfl, cleared⟩
  | true =>
      simp only [existed, if_true] at possible
      obtain ⟨whole, ⟨bytes, intact⟩, writable⟩ := possible
      have stored : entry.stored = true := by simp [CheckpointEntry.stored, existed, whole]
      obtain ⟨written, wrote, reads⟩ := (fs.writeWithParents_iff _ bytes).1 writable
      have same := materialize_stored host held fs entry stored bytes intact
      rw [done, wrote] at same
      obtain rfl : machine = written := congrArg Prod.snd same
      exact .inl ⟨bytes, stored, intact, wrote, reads⟩

variable (unlinked : Unlinked fs (.ofText entry.path))

include unlinked

/-- The rollback of a missing target removes whatever the first restore wrote. -/
theorem again_absent (later : CheckpointStore) (new : Record)
    (absent : Absent fs entry.path new) (aimed : new.entry.path = entry.path) :
    Materializable host later machine new.entry ∧
      SameTarget fs (materialize host later machine new.entry).2 (.ofText entry.path) := by
  have missing := absent.missing
  rcases materialize_ok host held fs machine entry done with
    ⟨bytes, stored, intact, wrote, reads⟩ | ⟨existed, -⟩
  · have flat : machine.isDir (.ofText entry.path) = false := by
      simp [FileSystem.isDir, machine.metadata_of_read _ bytes reads]
    have removable : machine.Removable (.ofText new.entry.path) := by
      intro dir
      rw [aimed, flat] at dir
      cases dir
    refine ⟨?_, ?_, fun _ => ?_⟩
    · simpa [Materializable, absent.existed] using removable
    · intro place stands location below
      have nothing := lookup_missing fs _ unlinked missing place stands
      have gone := fs.lookup_none_below place location below nothing
      obtain ⟨removed, again, cleared⟩ :=
        (materialize_absent host later machine new.entry absent.existed).1 removable
      rw [again, gone]
      have same := (fs.writeWithParents_of_entry _ place bytes stands (by simp [nothing])
        (by simp [nothing])).2
      rw [wrote] at same
      obtain rfl : machine = fs.put place (.file bytes) := congrArg Prod.snd same
      have fits := FileSystem.puttable_of_entryOf fs _ place stands (by simp [nothing])
      have still := FileSystem.entryOf_mono
        (fs.put_covers place bytes fits (by simp [nothing])) (by simp) _ place stands
      rw [aimed] at cleared
      rcases cleared with ⟨none, -⟩ | ⟨other, stands', nested, rfl⟩
      · simp [FileSystem.pathExists, FileSystem.metadata_of_read _ _ bytes reads] at none
      · obtain rfl : place = other := Except.ok.inj (still.symm.trans stands')
        rw [FileSystem.lookup_removeTree _ place location nested,
          if_pos (List.isPrefixOf_iff_prefix.mpr below)]
    · obtain ⟨removed, again, cleared⟩ :=
        (materialize_absent host later machine new.entry absent.existed).1 removable
      rw [again]
      rw [aimed] at cleared
      exact cleared.gone
  · have idle := materialize_missing host held fs entry existed missing
    rw [done] at idle
    obtain rfl : machine = fs := congrArg Prod.snd idle
    have again := materialize_missing host later machine new.entry absent.existed
      (by rw [aimed]; exact missing)
    refine ⟨(materialize_iff host later machine new.entry).mp (by rw [again]), ?_⟩
    rw [again]
    exact SameTarget.refl machine _

/-- The first restore leaves the entry of a small file in place, and what it leaves there is known. -/
theorem again_content (bytes : List UInt8) (reads : fs.read (.ofText entry.path) = .ok bytes) :
    ∃ place, fs.entryOf (.ofText entry.path) = .ok place ∧
      fs.lookup place = some (.file bytes) ∧
      machine.entryOf (.ofText entry.path) = .ok place ∧
      ((∃ other, entry.stored = true ∧ Intact host held entry other ∧
          machine.lookup place = some (.file other)) ∨
        (entry.existed = false ∧ machine.lookup place = none)) := by
  obtain ⟨place, stands, file⟩ := entry_of_read fs _ unlinked bytes reads
  have fits := FileSystem.puttable_of_entryOf fs _ place stands (by simp [file])
  refine ⟨place, stands, file, ?_⟩
  rcases materialize_ok host held fs machine entry done with
    ⟨other, stored, intact, wrote, -⟩ | ⟨existed, cleared⟩
  · have same := (fs.writeWithParents_of_entry _ place other stands (by simp [file])
      (by simp [file])).2
    rw [wrote] at same
    obtain rfl : machine = fs.put place (.file other) := congrArg Prod.snd same
    refine ⟨FileSystem.entryOf_mono (fs.put_covers place other fits (by simp [file])) (by simp) _
      place stands, .inl ⟨other, stored, intact, ?_⟩⟩
    rw [FileSystem.lookup_put fs place _ fits, if_pos rfl]
  · rcases cleared with ⟨none, -⟩ | ⟨other, stands', nested, rfl⟩
    · simp [FileSystem.pathExists, fs.metadata_of_read _ bytes reads] at none
    · obtain rfl : place = other := Except.ok.inj (stands.symm.trans stands')
      refine ⟨FileSystem.entryOf_ways (fs.keepsWays_removeTree place bytes file) (by simp) _ place
        stands (by simp [file]), .inr ⟨existed, ?_⟩⟩
      rw [FileSystem.lookup_removeTree fs place place nested, if_pos (by simp)]

end Again

/-- An intact blob is written at the entry of its path. -/
theorem materialize_put (host : Host) (store : CheckpointStore) (fs : FileSystem)
    (entry : CheckpointEntry) (bytes : List UInt8) (stored : entry.stored = true)
    (intact : Intact host store entry bytes) (place : Location)
    (stands : fs.entryOf (.ofText entry.path) = .ok place) (solid : fs.lookup place ≠ some .dir)
    (unlinked : ∀ target, fs.lookup place ≠ some (.symlink target)) :
    Materializable host store fs entry ∧
      materialize host store fs entry = (.ok (), fs.put place (.file bytes)) := by
  have wrote := (fs.writeWithParents_of_entry _ place bytes stands solid unlinked).2
  have ran : materialize host store fs entry = (.ok (), fs.put place (.file bytes)) := by
    rw [materialize_stored host store fs entry stored bytes intact, wrote]
  exact ⟨(materialize_iff host store fs entry).mp (by rw [ran]), ran⟩

section Twice

variable (host : Host) (store : CheckpointStore) (fs machine : FileSystem) (now later : Nat)
  (entry : CheckpointEntry) (new : Record)

/-- The blob of the first rollback stays unless the second one has the same time. -/
theorem lookup_again (bytes : List UInt8) (content : new.bytes = some bytes)
    (named : new.entry.ts = now) (again : Record) (after : again.entry.ts = later) :
    ((store.add new).add again).blobs.lookup now =
      if later = now then some (again.bytes.getD bytes) else some bytes := by
  have first := add_lookup_own store new bytes content
  rw [named] at first
  by_cases same : later = now
  · rw [if_pos same]
    cases second : again.bytes with
    | none =>
        have kept : ((store.add new).add again).blobs = (store.add new).blobs := by
          simp [add, second]
        rw [kept, first]
        rfl
    | some other =>
        have own := add_lookup_own (store.add new) again other second
        rw [after, same] at own
        rw [own]
        rfl
  · rw [if_neg same, add_lookup_other _ _ _ (by rw [after]; exact Ne.symm same), first]

/-- A small file comes back when the blob of its rollback still has its bytes. -/
theorem again_small (after : CheckpointStore)
    (aimed : new.entry.path = entry.path) (named : new.entry.ts = now) (bytes held : List UInt8)
    (content : Content host fs entry.path new bytes) (place : Location)
    (stands : fs.entryOf (.ofText entry.path) = .ok place)
    (file : fs.lookup place = some (.file bytes))
    (still : machine.entryOf (.ofText entry.path) = .ok place)
    (solid : machine.lookup place ≠ some .dir)
    (plain : ∀ target, machine.lookup place ≠ some (.symlink target))
    (lookup : after.blobs.lookup now = some held) :
    (Materializable host after machine new.entry ∧
      SameTarget fs (materialize host after machine new.entry).2 (.ofText entry.path)) ↔
      held = bytes := by
  have fits := FileSystem.puttable_of_entryOf machine _ place still solid
  rw [← named] at lookup
  rw [← aimed] at still
  constructor
  · rintro ⟨possible, same⟩
    simp only [Materializable, content.existed, if_true] at possible
    obtain ⟨-, ⟨other, intact⟩, -⟩ := possible
    obtain rfl : held = other := Option.some.inj (lookup.symm.trans intact.1)
    rw [(materialize_put host after machine new.entry held content.stored intact place still solid
      plain).2] at same
    have back := same.1 place stands place List.prefix_rfl
    rw [FileSystem.lookup_put machine place _ fits, if_pos rfl, file] at back
    simpa using back
  · rintro rfl
    have intact : Intact host after new.entry held := ⟨lookup, .inr content.hash.symm⟩
    obtain ⟨possible, ran⟩ := materialize_put host after machine new.entry held content.stored intact
      place still solid plain
    refine ⟨possible, ?_⟩
    rw [ran]
    exact sameTarget_put fs machine _ place held stands file fits

/-- A small file is returnable when the blob of its rollback still has its bytes. -/
theorem returnable_small (bytes : List UInt8) (content : Content host fs entry.path new bytes) :
    Returnable store fs now later entry ↔ now ≠ later ∨ entry.existed = false ∨
      ∀ other, store.blobs.lookup entry.ts = some other → other.length ≤ maxFileBytes →
        other = bytes := by
  constructor
  · rintro (missing | ⟨other, reads, -, apart⟩)
    · simp [FileSystem.pathExists, fs.metadata_of_read _ bytes content.read] at missing
    · obtain rfl : other = bytes := Except.ok.inj (reads.symm.trans content.read)
      exact apart
  · exact fun apart => .inr ⟨bytes, content.read, content.small, apart⟩

/-- The rollback of a small file brings it back exactly when it is returnable. -/
theorem again_content_iff (done : materialize host (store.add new) fs entry = (.ok (), machine))
    (unlinked : Unlinked fs (.ofText entry.path)) (listed : entry ∈ store.entries)
    (fresh : ∀ other ∈ store.entries, other.ts ≠ now) (named : new.entry.ts = now)
    (aimed : new.entry.path = entry.path) (bytes : List UInt8)
    (content : Content host fs entry.path new bytes) :
    (Materializable host ((store.add new).add (record host machine later "restore"
        "desktop.fs.restore" entry.path)) machine new.entry ∧
      SameTarget fs (materialize host ((store.add new).add (record host machine later "restore"
        "desktop.fs.restore" entry.path)) machine new.entry).2 (.ofText entry.path)) ↔
      Returnable store fs now later entry := by
  rw [returnable_small host store fs now later entry new bytes content]
  obtain ⟨place, stands, file, still, left⟩ := again_content host _ fs machine entry done unlinked
    bytes content.read
  have blob := lookup_again store now later new bytes content.bytes named
    (record host machine later "restore" "desktop.fs.restore" entry.path) (by simp)
  rcases left with ⟨other, stored, intact, there⟩ | ⟨existed, nothing⟩
  · have reads : machine.read (.ofText entry.path) = .ok other := by
      rw [FileSystem.read, FileSystem.metadata,
        machine.canonicalize_of_entry _ place _ still there (by simp)]
      simp only [Except.bind, there]
    have source : store.blobs.lookup entry.ts = some other := by
      rw [← intact.1, add_lookup_other _ _ _ (by rw [named]; exact fresh entry listed)]
    have existed : entry.existed = true ∧ entry.truncated = false := by
      simpa [CheckpointEntry.stored] using stored
    rw [record_bytes host machine later "restore" "desktop.fs.restore" entry.path other reads] at blob
    by_cases same : later = now
    · by_cases more : maxFileBytes < other.length
      · simp only [same, more, if_true, Option.getD_none] at blob
        rw [same, again_small host fs machine now entry new _ aimed named bytes bytes content place
          stands file still (by simp [there]) (by simp [there]) blob]
        refine iff_of_true rfl (.inr (.inr fun held found small => ?_))
        obtain rfl : other = held := Option.some.inj (source.symm.trans found)
        exact absurd small (not_le.mpr more)
      · -- The second rollback takes the blob of the first one.
        simp only [same, more, if_true, if_false, Option.getD_some] at blob
        rw [same, again_small host fs machine now entry new _ aimed named bytes other content place
          stands file still (by simp [there]) (by simp [there]) blob]
        constructor
        · rintro rfl
          exact .inr (.inr fun held found _ => Option.some.inj (found.symm.trans source))
        · rintro (apart | absent | equal)
          · exact absurd rfl apart
          · rw [existed.1] at absent
            cases absent
          · exact equal other source (not_lt.mp more)
    · simp only [same, if_false] at blob
      rw [again_small host fs machine now entry new _ aimed named bytes bytes content place
        stands file still (by simp [there]) (by simp [there]) blob]
      exact iff_of_true rfl (.inl (Ne.symm same))
  · have missing : machine.pathExists (.ofText entry.path) = false := by
      obtain ⟨reason, failed⟩ := machine.canonicalize_error_of_missing _ place still nothing
      simp [FileSystem.pathExists, FileSystem.metadata, failed, Except.bind]
    rw [record_missing host machine later "restore" "desktop.fs.restore" entry.path missing] at blob
    simp only [Option.getD_none, ite_self] at blob
    rw [again_small host fs machine now entry new _ aimed named bytes bytes content place stands
      file still (by simp [nothing]) (by simp [nothing]) blob]
    simp [existed]

end Twice

/-- The store of a single file that was captured. -/
def singleFile : CheckpointStore := ⟨[Archive.firstEntry], [(1, [97])]⟩

/-- The rollback of the single file. -/
def singleRollback : CheckpointEntry :=
  ⟨"restore", "desktop.fs.restore", "/a", 2, true, 1, "b", false⟩

/-- The file has other bytes when it is restored. -/
def changedFile : FileSystem := FileSystem.empty.put ["a"] (.file [98])

/-- A directory stands where nothing stood when the entry was captured. -/
def folderEntry : CheckpointEntry := ⟨"1", "desktop.fs.write", "/d", 1, false, 0, "", false⟩

def folder : FileSystem := (FileSystem.empty.put ["d"] .dir).put ["d", "x"] (.file [120])

end CheckpointStore

end Daemon
