import Mathlib.Algebra.Order.BigOperators.Group.List
import Mathlib.Algebra.Order.Group.Nat
import SynthHiresBridge.Proof.Archive

namespace Daemon

open Posix Transition CheckpointStore

namespace CheckpointStore

/-- The bytes that the blob of an entry takes. -/
def blobBytes (store : CheckpointStore) (entry : CheckpointEntry) : Nat :=
  ((store.blobs.lookup entry.ts).map List.length).getD 0

/-- The bytes that all blobs take. -/
def blobTotal (store : CheckpointStore) : Nat := (store.blobs.map fun blob => blob.2.length).sum

/-- The budgets count every entry by the bytes that are stored for it. -/
def WithinBudgets (store : CheckpointStore) (entries : List CheckpointEntry) : Prop :=
  entries.length ≤ maxCheckpoints ∧ (entries.map store.blobBytes).sum ≤ maxTotalBytes

end CheckpointStore

namespace Kept

variable {host : Host} {sights : List Sighting} {store : CheckpointStore}

theorem blobBytes_stored (kept : Kept host sights store) (entry : CheckpointEntry)
    (listed : entry ∈ store.entries) (stored : entry.stored = true) :
    store.blobBytes entry = entry.size ∧ entry.size ≤ maxFileBytes := by
  obtain ⟨sight, -, shown⟩ := kept.seen entry listed
  obtain ⟨bytes, -, held, -, size, small⟩ := shown.content stored
  rw [blobBytes, held, ← size]
  exact ⟨rfl, small⟩

theorem blobBytes_bare (kept : Kept host sights store) (entry : CheckpointEntry)
    (listed : entry ∈ store.entries) (bare : entry.stored = false) : store.blobBytes entry = 0 := by
  rw [blobBytes]
  cases held : store.blobs.lookup entry.ts with
  | none => rfl
  | some bytes =>
      obtain ⟨front, back, same, -⟩ := List.lookup_eq_some_iff.mp held
      obtain ⟨owner, member, own, stored⟩ := kept.owned (entry.ts, bytes) (by simp [same])
      obtain rfl : owner = entry :=
        List.inj_on_of_nodup_map kept.distinct member listed own
      rw [bare] at stored
      cases stored

/-- A blob is never larger than the size its entry records. -/
theorem blobBytes_le (kept : Kept host sights store) (entry : CheckpointEntry)
    (listed : entry ∈ store.entries) : store.blobBytes entry ≤ entry.size := by
  cases stored : entry.stored with
  | true => exact (kept.blobBytes_stored entry listed stored).1.le
  | false => rw [kept.blobBytes_bare entry listed stored]; exact Nat.zero_le _

/-- The blobs are those of the entries. -/
theorem blobs_perm (kept : Kept host sights store) :
    (store.blobs.map fun blob => (blob.1, blob.2.length)).Perm
      ((store.entries.filter CheckpointEntry.stored).map fun entry =>
        (entry.ts, store.blobBytes entry)) := by
  have blob_keys : ((store.blobs.map fun blob => (blob.1, blob.2.length)).map Prod.fst).Nodup := by
    rw [List.map_map]
    exact kept.keys
  have entry_keys : (((store.entries.filter CheckpointEntry.stored).map fun entry =>
      (entry.ts, store.blobBytes entry)).map Prod.fst).Nodup := by
    rw [List.map_map]
    exact kept.distinct.sublist (List.filter_sublist.map _)
  refine (List.perm_ext_iff_of_nodup blob_keys.of_map entry_keys.of_map).mpr fun pair => ?_
  have held : ∀ entry ∈ store.entries, entry.stored = true →
      ∃ bytes, (entry.ts, bytes) ∈ store.blobs ∧ store.blobBytes entry = bytes.length := by
    intro entry listed stored
    obtain ⟨sight, -, shown⟩ := kept.seen entry listed
    obtain ⟨bytes, -, found, -⟩ := shown.content stored
    obtain ⟨front, back, same, -⟩ := List.lookup_eq_some_iff.mp found
    exact ⟨bytes, by simp [same], by simp [blobBytes, found]⟩
  constructor
  · intro member
    obtain ⟨blob, listed, rfl⟩ := List.mem_map.mp member
    obtain ⟨entry, present, own, stored⟩ := kept.owned blob listed
    obtain ⟨bytes, other, size⟩ := held entry present stored
    have same : (entry.ts, bytes) = blob :=
      List.inj_on_of_nodup_map kept.keys other listed own
    refine List.mem_map.mpr ⟨entry, List.mem_filter.mpr ⟨present, stored⟩, ?_⟩
    rw [size, ← same]
  · intro member
    obtain ⟨entry, filtered, rfl⟩ := List.mem_map.mp member
    obtain ⟨present, stored⟩ := List.mem_filter.mp filtered
    obtain ⟨bytes, listed, size⟩ := held entry present stored
    exact List.mem_map.mpr ⟨(entry.ts, bytes), listed, by simp [size]⟩

/-- The blobs take the bytes that are counted for the entries. -/
theorem blobTotal_eq (kept : Kept host sights store) :
    store.blobTotal = (store.entries.map store.blobBytes).sum := by
  have total := (kept.blobs_perm.map Prod.snd).sum_eq
  rw [List.map_map, List.map_map] at total
  have filtered : ∀ entries : List CheckpointEntry, (∀ entry ∈ entries, entry ∈ store.entries) →
      ((entries.filter CheckpointEntry.stored).map store.blobBytes).sum =
        (entries.map store.blobBytes).sum := by
    intro entries inside
    induction entries with
    | nil => rfl
    | cons entry rest ih =>
        have later := ih fun other listed => inside other (List.mem_cons_of_mem _ listed)
        cases stored : entry.stored with
        | true => simp [List.filter_cons_of_pos stored, later]
        | false =>
            rw [List.filter_cons_of_neg (by simp [stored]), later, List.map_cons, List.sum_cons,
              kept.blobBytes_bare entry (inside entry (by simp)) stored, Nat.zero_add]
  exact total.trans (filtered store.entries fun _ listed => listed)

/-- Entries within the limits are within the budgets. -/
theorem withinBudgets (kept : Kept host sights store) (entries : List CheckpointEntry)
    (inside : ∀ entry ∈ entries, entry ∈ store.entries) (within : WithinLimits entries) :
    store.WithinBudgets entries := by
  refine ⟨within.1, le_trans (List.sum_le_sum ?_) within.2⟩
  exact fun entry listed => kept.blobBytes_le entry (inside entry listed)

end Kept

namespace Archive

/-- The store of a capture before it evicts. -/
def laden (host : Host) (archive : Archive) (now : Nat) (actionId capability path : String) :
    CheckpointStore :=
  archive.store.add (record host archive.fs now actionId capability path)

theorem laden_entries (host : Host) (archive : Archive) (now : Nat)
    (actionId capability path : String) :
    (laden host archive now actionId capability path).entries =
      archive.store.entries ++ [(record host archive.fs now actionId capability path).entry] := rfl

/-- The newest entries that keep the budgets also keep the limits, apart from a last one. -/
def Spared (store : CheckpointStore) : Prop :=
  ∀ newest, newest <:+ store.entries → store.WithinBudgets newest → 1 < newest.length →
    (newest.map CheckpointEntry.size).sum ≤ maxTotalBytes

/-- A store that keeps what was seen holds one large entry at most beyond its limits. -/
theorem blobTotal_enforced {host : Host} {sights : List Sighting} {store : CheckpointStore}
    (kept : Kept host sights store) (before : List CheckpointEntry) (last : CheckpointEntry)
    (same : store.entries = before ++ [last]) (ordered : Chronological store.entries) :
    (enforceLimits store last.ts).blobTotal ≤ maxTotalBytes := by
  have after := kept.evict last.ts
  rw [after.blobTotal_eq]
  have trimmed := enforceLimits_trim store before last same ordered
  rw [same] at trimmed
  rcases Suffix.trim_fits WithinLimits before last with within | alone
  · rw [← trimmed] at within
    exact (after.withinBudgets _ (fun _ listed => listed) within).2
  · rw [alone] at trimmed
    rw [trimmed, List.map_singleton, List.sum_singleton]
    have listed : last ∈ (enforceLimits store last.ts).entries := by simp [trimmed]
    cases stored : last.stored with
    | true =>
        obtain ⟨size, small⟩ := after.blobBytes_stored last listed stored
        rw [size]
        exact small.trans (by decide)
    | false => simp [after.blobBytes_bare last listed stored]

section Capture

variable {host : Host} {fs : FileSystem} {events : List StoreEvent} {now : Nat}
  {actionId capability path : String}

/-- The laden store keeps what was seen, in the order of the times. -/
theorem laden_kept (clocked : Clocked host fs (events ++ [.capture now actionId capability path])) :
    Kept host (sightings host fs (events ++ [.capture now actionId capability path]))
        (laden host (after host fs events) now actionId capability path) ∧
      Chronological (laden host (after host fs events) now actionId capability path).entries := by
  have earlier := clocked.earlier ⟨now, path, _⟩ (List.mem_singleton.mpr rfl)
  obtain ⟨kept, ordered⟩ := clocked.front.kept
  constructor
  · rw [sightings, collect_concat]
    exact kept.add _ now actionId capability path fun entry listed => (earlier entry listed).ne
  · exact add_chronological host _ _ now actionId capability path ordered earlier

theorem after_capture : (after host fs (events ++ [.capture now actionId capability path])).store =
    enforceLimits (laden host (after host fs events) now actionId capability path) now := by
  rw [after, run_concat]
  simp only [step, capture_eq]
  rfl

end Capture

/-- The blobs of every store of a run keep the byte budget. -/
theorem blobTotal_after {host : Host} {fs : FileSystem} {events : List StoreEvent}
    (clocked : Clocked host fs events) : (after host fs events).store.blobTotal ≤ maxTotalBytes := by
  induction events using List.reverseRecOn with
  | nil => exact Nat.zero_le _
  | append_singleton events event ih =>
      rw [after, run_concat]
      rcases step_store host (after host fs events) event with
        ⟨-, same⟩ | ⟨now, actionId, capability, path, seen, same⟩
      · rw [after] at same
        rw [same]
        exact ih clocked.front
      · rw [after] at same
        rw [same]
        have earlier := clocked.earlier ⟨now, path, _⟩ (by rw [seen]; exact List.mem_singleton.mpr rfl)
        obtain ⟨kept, ordered⟩ := clocked.front.kept
        have named := record_ts host (after host fs events).fs now actionId capability path
        have laden := kept.add (after host fs events).fs now actionId capability path
          fun entry listed => (earlier entry listed).ne
        have total := blobTotal_enforced laden (after host fs events).store.entries
          (record host (after host fs events).fs now actionId capability path).entry rfl
          (add_chronological host _ _ now actionId capability path ordered earlier)
        rw [named] at total
        exact total

section Longest

variable (host : Host) (fs : FileSystem) (events : List StoreEvent) (now : Nat)
  (actionId capability path : String)
  (clocked : Clocked host fs (events ++ [.capture now actionId capability path]))

include clocked

/-- A capture trims the old entries and its own from the front. -/
theorem capture_trim :
    (after host fs (events ++ [.capture now actionId capability path])).store.entries =
      Suffix.trim WithinLimits ((after host fs events).store.entries ++
        [(record host (after host fs events).fs now actionId capability path).entry]) := by
  have trimmed := enforceLimits_trim (laden host (after host fs events) now actionId capability path)
    (after host fs events).store.entries _ rfl (laden_kept clocked).2
  rw [record_ts] at trimmed
  rw [after_capture, trimmed]
  rfl

/-- The entry of a capture alone is within the budgets. -/
theorem laden_alone :
    (laden host (after host fs events) now actionId capability path).WithinBudgets
      [(record host (after host fs events).fs now actionId capability path).entry] := by
  obtain ⟨kept, -⟩ := laden_kept clocked
  have listed : (record host (after host fs events).fs now actionId capability path).entry ∈
      (laden host (after host fs events) now actionId capability path).entries := by simp [laden]
  refine ⟨by rw [List.length_singleton]; decide, ?_⟩
  rw [List.map_singleton, List.sum_singleton]
  cases stored : (record host (after host fs events).fs now actionId capability path).entry.stored with
  | true =>
      obtain ⟨size, small⟩ := kept.blobBytes_stored _ listed stored
      rw [size]
      exact small.trans (by decide)
  | false => simp [kept.blobBytes_bare _ listed stored]

theorem longest_iff :
    Suffix.Longest (laden host (after host fs events) now actionId capability path).WithinBudgets
        (laden host (after host fs events) now actionId capability path).entries
        (after host fs (events ++ [.capture now actionId capability path])).store.entries ↔
      Spared (laden host (after host fs events) now actionId capability path) := by
  obtain ⟨kept, -⟩ := laden_kept clocked
  rw [capture_trim host fs events now actionId capability path clocked, laden_entries,
    Suffix.longest_trim_iff WithinLimits withinLimits_hereditary _ _ _
      (laden_alone host fs events now actionId capability path clocked)
      fun other inside => kept.withinBudgets other fun _ listed => inside.subset listed]
  constructor
  · intro every newest inside within long
    rcases every newest inside within with small | single
    · exact small.2
    · exact absurd single (not_le.mpr long)
  · intro spared newest inside within
    by_cases single : newest.length ≤ 1
    · exact .inr single
    · exact .inl ⟨within.1, spared newest inside within (not_le.mp single)⟩

/-- The budgets only count entries after a capture that stores nothing. -/
theorem withinBudgets_bare
    (bare : (record host (after host fs events).fs now actionId capability path).bytes = none)
    (newest : List CheckpointEntry)
    (inside : newest <:+ (laden host (after host fs events) now actionId capability path).entries) :
    (laden host (after host fs events) now actionId capability path).WithinBudgets newest ↔
      newest.length ≤ maxCheckpoints := by
  refine ⟨fun within => within.1, fun few => ⟨few, ?_⟩⟩
  have total := (laden_kept clocked).1.blobTotal_eq
  have same : (laden host (after host fs events) now actionId capability path).blobTotal =
      (after host fs events).store.blobTotal := by
    simp [laden, CheckpointStore.add, bare, blobTotal]
  rw [same] at total
  refine le_trans ?_ (blobTotal_after clocked.front)
  rw [total]
  exact (inside.sublist.map _).sum_le_sum fun _ _ => Nat.zero_le _

/-- A capture of a run keeps both bounds. It keeps the longest run of newest entries within the
budgets of what is stored, and a capture without content evicts nothing for its bytes, exactly when
that run also fits by the sizes its entries record. -/
theorem eviction_longest_iff :
    (after host fs (events ++ [.capture now actionId capability path])).store.entries.length ≤
        maxCheckpoints ∧
      (after host fs (events ++ [.capture now actionId capability path])).store.blobTotal ≤
        maxTotalBytes ∧
      (Suffix.Longest (laden host (after host fs events) now actionId capability path).WithinBudgets
          (laden host (after host fs events) now actionId capability path).entries
          (after host fs (events ++ [.capture now actionId capability path])).store.entries ↔
        Spared (laden host (after host fs events) now actionId capability path)) ∧
      ((record host (after host fs events).fs now actionId capability path).bytes = none →
        (Suffix.Longest (fun entries => entries.length ≤ maxCheckpoints)
            (laden host (after host fs events) now actionId capability path).entries
            (after host fs (events ++ [.capture now actionId capability path])).store.entries ↔
          Spared (laden host (after host fs events) now actionId capability path))) := by
  have longest := longest_iff host fs events now actionId capability path clocked
  refine ⟨?_, blobTotal_after clocked, longest, fun bare => ?_⟩
  · rw [capture_trim host fs events now actionId capability path clocked]
    rcases Suffix.trim_fits WithinLimits (after host fs events).store.entries
      (record host (after host fs events).fs now actionId capability path).entry with within | alone
    · exact within.1
    · rw [alone, List.length_singleton]
      decide
  · rw [← longest]
    exact Suffix.Longest.congr fun newest inside => (withinBudgets_bare host fs events now actionId
      capability path clocked bare newest inside).symm

end Longest

/-- The first capture of a run keeps its entry. -/
theorem eviction_longest_first :
    Clocked spelledHost twoFiles ([] ++ [.capture 1 "1" "desktop.fs.write" "/a"]) ∧
      (Suffix.Longest (laden spelledHost (after spelledHost twoFiles []) 1 "1" "desktop.fs.write"
          "/a").WithinBudgets
          (laden spelledHost (after spelledHost twoFiles []) 1 "1" "desktop.fs.write" "/a").entries
          (after spelledHost twoFiles ([] ++ [.capture 1 "1" "desktop.fs.write" "/a"])).store.entries ↔
        Spared (laden spelledHost (after spelledHost twoFiles []) 1 "1" "desktop.fs.write" "/a")) := by
  have clocked : Clocked spelledHost twoFiles
      ([] ++ [.capture 1 "1" "desktop.fs.write" "/a"]) := by
    unfold Clocked
    decide
  exact ⟨clocked, (eviction_longest_iff spelledHost twoFiles [] 1 "1" "desktop.fs.write" "/a"
    clocked).2.2.1⟩

/-- A small file stands beside one that is as large as the whole budget. -/
def largeFile : FileSystem :=
  (FileSystem.empty.put ["a"] (.file [97])).put ["b"] (.file (List.replicate maxTotalBytes 0))

theorem largeFile_read : largeFile.read (.ofText "/b") = .ok (List.replicate maxTotalBytes 0) := by
  have resolved : largeFile.canonicalize (.ofText "/b") = .ok ["b"] := by decide
  have present : largeFile.lookup ["b"] = some (.file (List.replicate maxTotalBytes 0)) := by
    rw [largeFile, FileSystem.lookup_put _ _ _ (by decide), if_pos rfl]
  rw [FileSystem.read, FileSystem.metadata, resolved]
  simp only [Except.bind, present]

/-- The capture of a large file stores nothing and evicts the file before it. -/
theorem eviction_not_longest :
    ¬ ∀ (host : Host) (fs : FileSystem) (events : List StoreEvent) (now : Nat)
      (actionId capability path : String),
      Clocked host fs (events ++ [.capture now actionId capability path]) →
      Suffix.Longest (laden host (after host fs events) now actionId capability path).WithinBudgets
        (laden host (after host fs events) now actionId capability path).entries
        (after host fs (events ++ [.capture now actionId capability path])).store.entries := by
  intro claim
  have clocked : Clocked .quiet largeFile
      ([.capture 1 "1" "desktop.fs.write" "/a"] ++ [.capture 2 "2" "desktop.fs.write" "/b"]) := by
    unfold Clocked
    decide
  have spared := (longest_iff _ _ _ _ _ _ _ clocked).mp (claim _ _ _ _ _ _ _ clocked)
  obtain ⟨kept, -⟩ := laden_kept clocked
  have entries : (laden .quiet (after .quiet largeFile [.capture 1 "1" "desktop.fs.write" "/a"]) 2
      "2" "desktop.fs.write" "/b").entries =
      [⟨"1", "desktop.fs.write", "/a", 1, true, 1, "", false⟩,
        (record .quiet largeFile 2 "2" "desktop.fs.write" "/b").entry] := by
    have first : (after .quiet largeFile [.capture 1 "1" "desktop.fs.write" "/a"]).store.entries =
        [⟨"1", "desktop.fs.write", "/a", 1, true, 1, "", false⟩] := by decide
    have machine : (after .quiet largeFile [.capture 1 "1" "desktop.fs.write" "/a"]).fs =
        largeFile := rfl
    rw [laden_entries, first, machine]
    rfl
  obtain ⟨-, plain, size⟩ := record_large .quiet largeFile 2 "2" "desktop.fs.write" "/b" _
    largeFile_read (by rw [List.length_replicate]; decide)
  rw [List.length_replicate] at size
  have old := kept.blobBytes_le ⟨"1", "desktop.fs.write", "/a", 1, true, 1, "", false⟩
    (by simp [entries])
  have new := kept.blobBytes_bare (record .quiet largeFile 2 "2" "desktop.fs.write" "/b").entry
    (by simp [entries]) plain
  have within : (laden .quiet (after .quiet largeFile [.capture 1 "1" "desktop.fs.write" "/a"]) 2
      "2" "desktop.fs.write" "/b").WithinBudgets
      (laden .quiet (after .quiet largeFile [.capture 1 "1" "desktop.fs.write" "/a"]) 2
        "2" "desktop.fs.write" "/b").entries := by
    rw [entries, WithinBudgets]
    refine ⟨by rw [List.length_cons, List.length_singleton]; decide, ?_⟩
    rw [List.map_cons, List.map_singleton, List.sum_cons, List.sum_singleton, new, Nat.add_zero]
    exact old.trans (show 1 ≤ maxTotalBytes by decide)
  have recorded := spared _ List.suffix_rfl within
    (by rw [entries, List.length_cons, List.length_singleton]; decide)
  rw [entries] at recorded
  exact absurd recorded (not_le.mpr (pair_exceeds _ _ Nat.one_pos size))

end Archive

end Daemon
