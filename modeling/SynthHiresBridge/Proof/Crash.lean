import SynthHiresBridge.Proof.Archive

namespace Daemon

open Posix Transition

namespace CheckpointStore

/-- A capture makes these calls on the directory of the store, and each of them is atomic. -/
inductive Call where
  | writeBlob (ts : Nat) (bytes : List UInt8)
  | writeTmp (entries : List CheckpointEntry)
  | renameTmp
  | removeBlob (ts : Nat)

/-- The directory of the store holds the index, the blobs and the next index. -/
structure Directory where
  store : CheckpointStore
  tmp : Option (List CheckpointEntry)

def perform (directory : Directory) : Call → Directory
  | .writeBlob ts bytes => { directory with store := directory.store.writeBlob ts bytes }
  | .writeTmp entries => { directory with tmp := some entries }
  | .renameTmp => match directory.tmp with
      | none => directory
      | some entries => ⟨{ directory.store with entries := entries }, none⟩
  | .removeBlob ts => { directory with
      store := { directory.store with blobs := directory.store.blobs.filter (·.1 ≠ ts) } }

/-- The index is written beside the old one and renamed over it. -/
def writeIndexCalls (entries : List CheckpointEntry) : List Call :=
  [.writeTmp entries, .renameTmp]

/-- Each round removes the blob of its victim, and the index is written after the last round. -/
def enforceCalls (skipTs : Nat) : Nat → List CheckpointEntry → List Call
  | 0, entries => writeIndexCalls entries
  | rounds + 1, entries =>
      if WithinLimits entries then writeIndexCalls entries
      else match victim entries skipTs with
        | none => writeIndexCalls entries
        | some gone =>
            .removeBlob gone.ts :: enforceCalls skipTs rounds (entries.filter (·.ts ≠ gone.ts))

def blobCalls (new : Record) : List Call :=
  match new.bytes with
  | none => []
  | some bytes => [.writeBlob new.entry.ts bytes]

/-- A capture writes its blob, then the index with its entry, and then it evicts. -/
def captureCalls (store : CheckpointStore) (new : Record) : List Call :=
  blobCalls new ++ writeIndexCalls (store.entries ++ [new.entry]) ++
  enforceCalls new.entry.ts (store.entries ++ [new.entry]).length (store.entries ++ [new.entry])

/-- What a new process finds after some calls. -/
def reopened (store : CheckpointStore) (performed : List Call) : CheckpointStore :=
  (run perform ⟨store, none⟩ performed).store

/-- The blobs that some calls remove. -/
def removed (performed : List Call) : List Nat :=
  performed.filterMap fun call => match call with
    | .removeBlob ts => some ts
    | _ => none

/-- Every blob belongs to an entry, and every entry with content has its blob. -/
structure Consistent (store : CheckpointStore) : Prop where
  owned : ∀ blob ∈ store.blobs, ∃ entry ∈ store.entries, entry.ts = blob.1
  backed : ∀ entry ∈ store.entries, entry.existed = true → entry.truncated = false →
    (store.blobs.lookup entry.ts).isSome

/-- The removals come first and the index last. -/
theorem enforceCalls_eq (skipTs rounds : Nat) (entries : List CheckpointEntry) :
    enforceCalls skipTs rounds entries = (evicted skipTs rounds entries).map .removeBlob ++
      writeIndexCalls (entries.filter (·.ts ∉ evicted skipTs rounds entries)) := by
  induction rounds generalizing entries with
  | zero => simp [enforceCalls, evicted]
  | succ rounds ih =>
      rw [enforceCalls, evicted]
      by_cases within : WithinLimits entries
      · simp [within]
      · rw [if_neg within, if_neg within]
        cases chosen : victim entries skipTs with
        | none => simp
        | some gone =>
            simp only [ih, List.map_cons, List.cons_append]
            rw [filter_gone_cons CheckpointEntry.ts]

theorem run_removals (gone : List Nat) (store : CheckpointStore)
    (tmp : Option (List CheckpointEntry)) :
    run perform ⟨store, tmp⟩ (gone.map .removeBlob) =
      ⟨⟨store.entries, store.blobs.filter (·.1 ∉ gone)⟩, tmp⟩ := by
  induction gone generalizing store with
  | nil => simp
  | cons ts rest ih =>
      rw [List.map_cons, run_cons, perform, ih]
      simp only [filter_gone_cons Prod.fst]

/-- The directory of a capture before it evicts. -/
theorem run_add (store : CheckpointStore) (new : Record) :
    run perform ⟨store, none⟩ (blobCalls new ++ writeIndexCalls (store.entries ++ [new.entry])) =
      ⟨store.add new, none⟩ := by
  unfold add blobCalls
  cases new.bytes with
  | none => rfl
  | some bytes => rfl

/-- The calls of a whole capture give the store of the capture. -/
theorem reopened_captureCalls (store : CheckpointStore) (new : Record) :
    reopened store (captureCalls store new) = enforceLimits (store.add new) new.entry.ts := by
  rw [reopened, captureCalls, run_append, run_add, enforceCalls_eq, run_append, run_removals,
    enforceLimits, enforceFrom_eq]
  rfl

namespace Consistent

theorem empty : Consistent .empty := by
  constructor <;> simp [CheckpointStore.empty]

/-- A record and its blob come together. -/
theorem add {store : CheckpointStore} (consistent : Consistent store) (host : Host)
    (fs : FileSystem) (now : Nat) (actionId capability path : String) :
    Consistent (store.add (record host fs now actionId capability path)) := by
  have blob := record_blob host fs now actionId capability path
  generalize record host fs now actionId capability path = new at blob
  constructor
  · intro held member
    rcases mem_add_blobs member with older | ⟨own, -⟩
    · obtain ⟨entry, listed, own⟩ := consistent.owned held older
      exact ⟨entry, List.mem_append_left _ listed, own⟩
    · exact ⟨new.entry, by simp, own.symm⟩
  · intro entry member existed whole
    by_cases own : entry.ts = new.entry.ts
    · rcases blob with ⟨none, plain⟩ | ⟨bytes, content⟩
      · rcases List.mem_append.mp member with older | last
        · simpa [CheckpointStore.add, none] using consistent.backed entry older existed whole
        · rw [List.mem_singleton.mp last] at existed whole
          simp [CheckpointEntry.stored, existed, whole] at plain
      · rw [own, add_lookup_own store new bytes content.bytes]
        rfl
    · rw [add_lookup_other store new entry.ts own]
      rcases List.mem_append.mp member with older | last
      · exact consistent.backed entry older existed whole
      · exact absurd (congrArg CheckpointEntry.ts (List.mem_singleton.mp last)) own

/-- The blobs of some times are gone, and no entry with content misses its blob. -/
theorem remove_iff {store : CheckpointStore} (consistent : Consistent store) (gone : List Nat) :
    Consistent ⟨store.entries, store.blobs.filter (·.1 ∉ gone)⟩ ↔
      ∀ ts ∈ gone, ∀ entry ∈ store.entries, entry.stored = true → entry.ts ≠ ts := by
  constructor
  · rintro after ts leaves entry listed stored rfl
    simp only [CheckpointEntry.stored, Bool.and_eq_true, Bool.not_eq_true'] at stored
    have held := after.backed entry listed stored.1 stored.2
    rw [lookup_kept, if_pos leaves] at held
    cases held
  · intro bare
    constructor
    · intro blob member
      exact consistent.owned blob (List.mem_filter.mp member).1
    · intro entry listed existed whole
      rw [lookup_kept, if_neg]
      · exact consistent.backed entry listed existed whole
      · intro leaves
        exact bare entry.ts leaves entry listed (by simp [CheckpointEntry.stored, existed, whole]) rfl

/-- Eviction takes an entry together with its blob. -/
theorem evict {store : CheckpointStore} (consistent : Consistent store) (skipTs : Nat) :
    Consistent (enforceLimits store skipTs) := by
  constructor
  · intro blob member
    rw [enforceLimits, enforceFrom_eq] at member ⊢
    obtain ⟨held, stays⟩ := List.mem_filter.mp member
    obtain ⟨entry, listed, own⟩ := consistent.owned blob held
    exact ⟨entry, List.mem_filter.mpr ⟨listed, by rw [own]; exact stays⟩, own⟩
  · intro entry member existed whole
    rw [enforceLimits_entries, List.mem_filter] at member
    rw [enforceLimits_lookup, if_neg (by simpa using member.2)]
    exact consistent.backed entry member.1 existed whole

/-- A blob without its entry is consistent only under a time that is in the index. -/
theorem writeBlob_iff {store : CheckpointStore} (consistent : Consistent store) (ts : Nat)
    (bytes : List UInt8) :
    Consistent (store.writeBlob ts bytes) ↔ ∃ entry ∈ store.entries, entry.ts = ts := by
  constructor
  · intro after
    exact after.owned (ts, bytes) List.mem_cons_self
  · intro known
    constructor
    · intro blob member
      rcases List.mem_cons.mp member with rfl | older
      · exact known
      · exact consistent.owned blob (List.mem_filter.mp older).1
    · intro entry listed existed whole
      by_cases own : entry.ts = ts
      · simp [writeBlob, own]
      · have other := add_lookup_other store ⟨{ entry with ts := ts }, some bytes⟩ entry.ts own
        simp only [CheckpointStore.add] at other
        rw [other]
        exact consistent.backed entry listed existed whole

end Consistent

/-- A crash before the first rename finds the old index, with the new blob or without it. -/
theorem crash_early (store : CheckpointStore) (new : Record) {performed : List Call}
    (early : performed <+: blobCalls new ++ [.writeTmp (store.entries ++ [new.entry])]) :
    .renameTmp ∉ performed ∧ removed performed = [] ∧
      (((∀ bytes, .writeBlob new.entry.ts bytes ∉ performed) ∧
          reopened store performed = store) ∨
        ∃ bytes, .writeBlob new.entry.ts bytes ∈ performed ∧
          reopened store performed = store.writeBlob new.entry.ts bytes) := by
  unfold blobCalls at early
  cases held : new.bytes with
  | none =>
      simp only [held, List.nil_append, List.prefix_cons_iff, List.prefix_nil] at early
      rcases early with rfl | ⟨_, rfl, rfl⟩
      · exact ⟨by simp, rfl, .inl ⟨by simp, rfl⟩⟩
      · exact ⟨by simp, rfl, .inl ⟨by simp, rfl⟩⟩
  | some bytes =>
      simp only [held, List.cons_append, List.nil_append, List.prefix_cons_iff,
        List.prefix_nil] at early
      rcases early with rfl | ⟨_, rfl, rfl | ⟨_, rfl, rfl⟩⟩
      · exact ⟨by simp, rfl, .inl ⟨by simp, rfl⟩⟩
      · exact ⟨by simp, rfl, .inr ⟨bytes, by simp, rfl⟩⟩
      · exact ⟨by simp, rfl, .inr ⟨bytes, by simp, rfl⟩⟩

theorem removed_append (first second : List Call) :
    removed (first ++ second) = removed first ++ removed second := by
  simp [removed]

theorem removed_removals (gone : List Nat) : removed (gone.map .removeBlob) = gone := by
  induction gone with
  | nil => rfl
  | cons ts rest ih => exact congrArg (ts :: ·) ih

theorem removed_add (new : Record) (entries : List CheckpointEntry) :
    removed (blobCalls new ++ writeIndexCalls entries) = [] := by
  unfold blobCalls
  cases new.bytes with
  | none => rfl
  | some bytes => rfl

/-- A crash between the renames finds the new index without the blobs removed so far. -/
theorem crash_late (store : CheckpointStore) (new : Record) (gone : List Nat)
    (rest performed : List Call) (tail : rest = [] ∨ ∃ entries, rest = [.writeTmp entries])
    (other : new.entry.ts ∉ gone)
    (calls : performed = blobCalls new ++ writeIndexCalls (store.entries ++ [new.entry]) ++
      (gone.map .removeBlob ++ rest)) :
    .renameTmp ∈ performed ∧ new.entry.ts ∉ removed performed ∧ reopened store performed =
      ⟨(store.add new).entries, (store.add new).blobs.filter (·.1 ∉ removed performed)⟩ := by
  have leaves : removed performed = gone := by
    rw [calls, removed_append, removed_add, removed_append, removed_removals]
    rcases tail with rfl | ⟨entries, rfl⟩ <;> simp [removed]
  rw [leaves]
  refine ⟨by simp [calls, writeIndexCalls], other, ?_⟩
  rw [calls, reopened, run_append, run_add, run_append, run_removals]
  rcases tail with rfl | ⟨entries, rfl⟩ <;> rfl

/-- A crash finds the old index, or the new one without some blobs, or the whole capture. -/
theorem crash_cases (store : CheckpointStore) (new : Record) {performed : List Call}
    (crash : performed <+: captureCalls store new) :
    performed <+: blobCalls new ++ [.writeTmp (store.entries ++ [new.entry])] ∨
      (.renameTmp ∈ performed ∧ new.entry.ts ∉ removed performed ∧
        reopened store performed =
          ⟨(store.add new).entries, (store.add new).blobs.filter (·.1 ∉ removed performed)⟩) ∨
      performed = captureCalls store new := by
  have skipped := skip_stays new.entry.ts (store.entries ++ [new.entry]).length
    (store.entries ++ [new.entry])
  rw [captureCalls, enforceCalls_eq] at crash ⊢
  generalize evicted new.entry.ts (store.entries ++ [new.entry]).length
    (store.entries ++ [new.entry]) = gone at crash skipped ⊢
  rcases append_prefix_cases crash with early | ⟨more, calls, late⟩
  · rw [writeIndexCalls, List.append_cons, List.prefix_concat_iff] at early
    rcases early with calls | early
    · exact .inr (.inl (crash_late store new [] [] performed (.inl rfl) (by simp)
        (by simp [calls, writeIndexCalls])))
    · exact .inl early
  · rcases append_prefix_cases late with removals | ⟨rest, split, index⟩
    · obtain ⟨first, short, same⟩ := List.prefix_map_iff.mp removals
      have other : new.entry.ts ∉ first := fun leaves => skipped (short.subset leaves)
      exact .inr (.inl (crash_late store new first [] performed (.inl rfl) other
        (by rw [calls, same, List.append_nil])))
    · simp only [writeIndexCalls, List.prefix_cons_iff, List.prefix_nil] at index
      rcases index with none | ⟨_, tmp, none | ⟨_, whole, rfl⟩⟩
      · exact .inr (.inl (crash_late store new gone rest performed (.inl none) skipped
          (by rw [calls, split])))
      · exact .inr (.inl (crash_late store new gone rest performed
          (.inr ⟨_, by rw [tmp, none]⟩) skipped (by rw [calls, split])))
      · exact .inr (.inr (by rw [calls, split, tmp, whole]; rfl))

/-- A crash is safe when the index has the new blob and misses none of the removed ones. -/
def CrashSafe (store : CheckpointStore) (new : Record) (performed : List Call) : Prop :=
  ((∃ bytes, .writeBlob new.entry.ts bytes ∈ performed) → .renameTmp ∈ performed ∨
      ∃ entry ∈ store.entries, entry.ts = new.entry.ts) ∧
    (performed = captureCalls store new ∨
      ∀ ts ∈ removed performed, ∀ entry ∈ store.entries, entry.stored = true → entry.ts ≠ ts)

theorem Consistent.crash_iff {store : CheckpointStore} (consistent : Consistent store)
    (host : Host) (fs : FileSystem) (now : Nat) (actionId capability path : String)
    {performed : List Call}
    (crash : performed <+: captureCalls store (record host fs now actionId capability path)) :
    Consistent (reopened store performed) ↔
      CrashSafe store (record host fs now actionId capability path) performed := by
  have laden := consistent.add host fs now actionId capability path
  generalize record host fs now actionId capability path = new at crash laden
  by_cases whole : performed = captureCalls store new
  · rw [whole, reopened_captureCalls]
    refine iff_of_true (laden.evict _) ⟨fun _ => .inl ?_, .inl rfl⟩
    simp [captureCalls, writeIndexCalls]
  · rcases crash_cases store new crash with early | ⟨renamed, own, found⟩ | same
    · obtain ⟨before, none, ⟨bare, same⟩ | ⟨bytes, written, same⟩⟩ := crash_early store new early
      · rw [same, CrashSafe, none]
        simp [bare, consistent]
      · rw [same, CrashSafe, none, consistent.writeBlob_iff]
        have some : ∃ bytes, .writeBlob new.entry.ts bytes ∈ performed := ⟨bytes, written⟩
        simp [before, some]
    · rw [found, laden.remove_iff]
      constructor
      · intro bare
        exact ⟨fun _ => .inl renamed, .inr fun ts leaves entry listed =>
          bare ts leaves entry (List.mem_append_left _ listed)⟩
      · rintro ⟨-, bare⟩ ts leaves entry listed stored
        rcases List.mem_append.mp listed with older | last
        · exact bare.resolve_left whole ts leaves entry older stored
        · rintro rfl
          rw [List.mem_singleton.mp last] at leaves
          exact own leaves
    · exact absurd same whole

end CheckpointStore

/-- A crash stops a capture after some of its calls. -/
inductive CrashEvent where
  | whole (event : StoreEvent)
  | crash (calls now : Nat) (actionId capability path : String)

namespace Archive

open CheckpointStore

def crashStep (host : Host) (archive : Archive) : CrashEvent → Archive
  | .whole event => archive.step host event
  | .crash calls now actionId capability path => { archive with
      store := reopened archive.store ((captureCalls archive.store
        (record host archive.fs now actionId capability path)).take calls) }

/-- The archive after a run with crashes. -/
def afterCrashes (host : Host) (fs : FileSystem) (events : List CrashEvent) : Archive :=
  run (crashStep host) (start fs) events

def SafeCrash (host : Host) (archive : Archive) : CrashEvent → Prop
  | .whole _ => True
  | .crash calls now actionId capability path =>
      let new := record host archive.fs now actionId capability path
      CrashSafe archive.store new ((captureCalls archive.store new).take calls)

/-- A step keeps the store consistent exactly when it is no crash or a safe one. -/
theorem crashStep_iff (host : Host) {archive : Archive} (consistent : Consistent archive.store)
    (event : CrashEvent) :
    Consistent (archive.crashStep host event).store ↔ archive.SafeCrash host event := by
  cases event with
  | whole event =>
      refine iff_of_true ?_ trivial
      rcases step_store host archive event with
        ⟨-, same⟩ | ⟨now, actionId, capability, path, -, same⟩
      · rw [crashStep, same]
        exact consistent
      · rw [crashStep, same]
        exact (consistent.add host archive.fs now actionId capability path).evict now
  | crash calls now actionId capability path =>
      exact consistent.crash_iff host archive.fs now actionId capability path
        (List.take_prefix calls _)

end Archive

end Daemon
