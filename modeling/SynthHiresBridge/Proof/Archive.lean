import SynthHiresBridge.Transition.Run
import SynthHiresBridge.Proof.Eviction

namespace Daemon

open Posix Transition CheckpointStore

/-- The undo store is used while programs change the machine. -/
inductive StoreEvent where
  | capture (now : Nat) (actionId capability path : String)
  | restore (now ts : Nat)
  | machine (fs : FileSystem)

/-- An archive is an undo store beside the machine it protects. -/
structure Archive where
  store : CheckpointStore
  fs : FileSystem

/-- A sighting is what a capture reads under a path. -/
structure Sighting where
  ts : Nat
  path : String
  bytes : Except Errno (List UInt8)

namespace Archive

/-- An archive starts without checkpoints. -/
def start (fs : FileSystem) : Archive := ⟨.empty, fs⟩

def step (host : Host) (archive : Archive) : StoreEvent → Archive
  | .capture now actionId capability path => { archive with
      store := (capture host none archive.store archive.fs now actionId capability path).2 }
  | .restore now ts =>
      let ran := restore host none archive.store archive.fs now ts
      ⟨ran.2.1, ran.2.2⟩
  | .machine fs => { archive with fs := fs }

/-- A restore sees its target when the entry it asks for is listed. -/
def sees (archive : Archive) : StoreEvent → List Sighting
  | .capture now _ _ path => [⟨now, path, archive.fs.read (.ofText path)⟩]
  | .restore now ts => match archive.store.entries.find? (·.ts = ts) with
      | none => []
      | some entry => [⟨now, entry.path, archive.fs.read (.ofText entry.path)⟩]
  | .machine _ => []

/-- The archive after a run of events. -/
def after (host : Host) (fs : FileSystem) (events : List StoreEvent) : Archive :=
  run (step host) (start fs) events

/-- All that a run of events captured, in its order. -/
def sightings (host : Host) (fs : FileSystem) (events : List StoreEvent) : List Sighting :=
  collect (step host) sees (start fs) events

/-- The clock readings of a run increase. -/
def Clocked (host : Host) (fs : FileSystem) (events : List StoreEvent) : Prop :=
  (sightings host fs events).Pairwise fun first second => first.ts < second.ts

/-- A clock reading is fresh when no entry has it. -/
def Fresh (archive : Archive) (event : StoreEvent) : Prop :=
  ∀ sight ∈ archive.sees event, ∀ entry ∈ archive.store.entries, entry.ts ≠ sight.ts

end Archive

namespace CheckpointStore

/-- A restore leaves the store alone, or it captures the target of its entry. -/
theorem restore_store (host : Host) (store : CheckpointStore) (fs : FileSystem) (now ts : Nat) :
    (restore host none store fs now ts).2.1 = match store.entries.find? (·.ts = ts) with
      | none => store
      | some entry => enforceLimits
          (store.add (record host fs now "restore" "desktop.fs.restore" entry.path)) now := by
  unfold restore
  cases store.entries.find? (·.ts = ts) with
  | none => rfl
  | some entry =>
      simp only [capture_eq]
      split <;> rfl

end CheckpointStore

namespace Archive

/-- A step that sees nothing keeps the store, and any other step captures what it sees. -/
theorem step_store (host : Host) (archive : Archive) (event : StoreEvent) :
    (archive.sees event = [] ∧ (archive.step host event).store = archive.store) ∨
      ∃ now actionId capability path,
        archive.sees event = [⟨now, path, archive.fs.read (.ofText path)⟩] ∧
        (archive.step host event).store = enforceLimits
          (archive.store.add (record host archive.fs now actionId capability path)) now := by
  cases event with
  | capture now actionId capability path =>
      exact .inr ⟨now, actionId, capability, path, rfl, by simp [step, capture_eq]⟩
  | restore now ts =>
      simp only [step, sees, restore_store]
      cases archive.store.entries.find? (·.ts = ts) with
      | none => exact .inl ⟨rfl, rfl⟩
      | some entry => exact .inr ⟨now, "restore", "desktop.fs.restore", entry.path, rfl, rfl⟩
  | machine fs => exact .inl ⟨rfl, rfl⟩

end Archive

/-- A sighting shows what an entry and its blob keep. -/
structure Shows (host : Host) (store : CheckpointStore) (sight : Sighting)
    (entry : CheckpointEntry) : Prop where
  ts : sight.ts = entry.ts
  path : sight.path = entry.path
  content : entry.stored = true → ∃ bytes, sight.bytes = .ok bytes ∧
    store.blobs.lookup entry.ts = some bytes ∧ host.sha256 bytes = entry.hash ∧
    bytes.length = entry.size ∧ bytes.length ≤ maxFileBytes

/-- Every entry has its own time, every blob has its entry, and every entry keeps what was seen. -/
structure Kept (host : Host) (sights : List Sighting) (store : CheckpointStore) : Prop where
  distinct : (store.entries.map CheckpointEntry.ts).Nodup
  keys : (store.blobs.map Prod.fst).Nodup
  owned : ∀ blob ∈ store.blobs, ∃ entry ∈ store.entries, entry.ts = blob.1 ∧ entry.stored = true
  seen : ∀ entry ∈ store.entries, ∃ sight ∈ sights, Shows host store sight entry

namespace Kept

theorem empty (host : Host) : Kept host [] .empty := by
  constructor <;> simp [CheckpointStore.empty]

/-- An entry shows the same while its blob stays. -/
theorem shows_of_lookup {host : Host} {before after : CheckpointStore} {sight : Sighting}
    {entry : CheckpointEntry} (shown : Shows host before sight entry)
    (same : entry.stored = true → after.blobs.lookup entry.ts = before.blobs.lookup entry.ts) :
    Shows host after sight entry := by
  refine ⟨shown.ts, shown.path, fun stored => ?_⟩
  rw [same stored]
  exact shown.content stored

/-- A record under a fresh time keeps what its capture saw. -/
theorem add {host : Host} {sights : List Sighting} {store : CheckpointStore}
    (kept : Kept host sights store) (fs : FileSystem) (now : Nat)
    (actionId capability path : String) (fresh : ∀ entry ∈ store.entries, entry.ts ≠ now) :
    Kept host (sights ++ [⟨now, path, fs.read (.ofText path)⟩])
      (store.add (record host fs now actionId capability path)) := by
  have named := record_ts host fs now actionId capability path
  have aimed := record_path host fs now actionId capability path
  have blob := record_blob host fs now actionId capability path
  generalize record host fs now actionId capability path = new at *
  refine ⟨?_, ?_, ?_, ?_⟩
  · rw [add_entries, List.map_append, List.nodup_append]
    refine ⟨kept.distinct, by simp, ?_⟩
    intro ts listed own last
    obtain ⟨entry, member, rfl⟩ := List.mem_map.mp listed
    obtain rfl : own = new.entry.ts := by simpa using last
    rw [named]
    exact fresh entry member
  · rcases blob with ⟨none, -⟩ | ⟨bytes, content⟩
    · simpa [CheckpointStore.add, none] using kept.keys
    · simp only [CheckpointStore.add, content.bytes, writeBlob, List.map_cons, List.nodup_cons]
      refine ⟨by simp, ?_⟩
      exact kept.keys.sublist (List.filter_sublist.map Prod.fst)
  · intro held member
    rcases mem_add_blobs member with older | ⟨own, laid⟩
    · obtain ⟨entry, listed, own⟩ := kept.owned held older
      exact ⟨entry, List.mem_append_left _ listed, own⟩
    · refine ⟨new.entry, by simp, own.symm, ?_⟩
      rcases blob with ⟨none, -⟩ | ⟨bytes, content⟩
      · simp [none] at laid
      · exact content.stored
  · intro entry member
    rcases List.mem_append.mp member with older | last
    · obtain ⟨sight, known, shown⟩ := kept.seen entry older
      refine ⟨sight, List.mem_append_left _ known, shows_of_lookup shown fun _ => ?_⟩
      apply add_lookup_other
      rw [named]
      exact fresh entry older
    · obtain rfl : entry = new.entry := by simpa using last
      refine ⟨_, List.mem_append_right _ (List.mem_singleton.mpr rfl), named.symm, aimed.symm, ?_⟩
      intro stored
      rcases blob with ⟨-, empty⟩ | ⟨bytes, content⟩
      · rw [empty] at stored
        cases stored
      · exact ⟨bytes, content.read, add_lookup_own store new bytes content.bytes,
          content.hash.symm, content.size.symm, content.small⟩

/-- Eviction takes an entry together with its blob. -/
theorem evict {host : Host} {sights : List Sighting} {store : CheckpointStore}
    (kept : Kept host sights store) (skipTs : Nat) :
    Kept host sights (enforceLimits store skipTs) := by
  rw [enforceLimits, enforceFrom_eq]
  refine ⟨?_, ?_, ?_, ?_⟩
  · exact kept.distinct.sublist (List.filter_sublist.map _)
  · exact kept.keys.sublist (List.filter_sublist.map _)
  · intro blob member
    obtain ⟨held, stays⟩ := List.mem_filter.mp member
    obtain ⟨entry, listed, own, stored⟩ := kept.owned blob held
    refine ⟨entry, List.mem_filter.mpr ⟨listed, ?_⟩, own, stored⟩
    rw [own]
    exact stays
  · intro entry member
    obtain ⟨listed, stays⟩ := List.mem_filter.mp member
    obtain ⟨sight, known, shown⟩ := kept.seen entry listed
    refine ⟨sight, known, shows_of_lookup shown fun _ => ?_⟩
    rw [lookup_kept, if_neg (by simpa using stays)]

/-- The entry of a time is the only one. -/
theorem find {host : Host} {sights : List Sighting} {store : CheckpointStore}
    (kept : Kept host sights store) (entry : CheckpointEntry) (listed : entry ∈ store.entries) :
    store.entries.find? (·.ts = entry.ts) = some entry := by
  cases found : store.entries.find? (·.ts = entry.ts) with
  | none =>
      have missing := List.find?_eq_none.mp found entry listed
      simp at missing
  | some other =>
      have same : other.ts = entry.ts := by simpa using List.find?_some found
      exact congrArg some
        (List.inj_on_of_nodup_map kept.distinct (List.mem_of_find?_eq_some found) listed same)

end Kept

namespace Archive

/-- A step under a fresh reading keeps every entry with what was seen. -/
theorem step_kept (host : Host) (sights : List Sighting) (archive : Archive) (event : StoreEvent)
    (kept : Kept host sights archive.store) (fresh : Fresh archive event) :
    Kept host (sights ++ archive.sees event) (archive.step host event).store := by
  rcases archive.step_store host event with
    ⟨nothing, same⟩ | ⟨now, actionId, capability, path, seen, same⟩
  · rw [nothing, same, List.append_nil]
    exact kept
  · rw [seen, same]
    refine (kept.add archive.fs now actionId capability path fun entry listed => ?_).evict now
    exact fresh ⟨now, path, archive.fs.read (.ofText path)⟩ (by simp [seen]) entry listed

/-- A run under fresh readings keeps every entry with what was seen. -/
theorem run_kept (host : Host) (fs : FileSystem) (events : List StoreEvent)
    (fresh : Throughout (fun before event => Fresh (after host fs before) event) events) :
    Kept host (sightings host fs events) (after host fs events).store := by
  refine invariant (step host) (start fs) _
    (fun before archive => Kept host (sightings host fs before) archive.store)
    (Kept.empty host) ?_ events fresh
  intro before event kept now
  rw [sightings, collect_concat]
  exact step_kept host _ _ event kept now

/-- A clock that goes forward reads a later time at every step. -/
theorem Clocked.later {host : Host} {fs : FileSystem} {events : List StoreEvent}
    (clocked : Clocked host fs events) :
    Throughout (fun before event => ∀ sight ∈ (after host fs before).sees event,
      ∀ earlier ∈ sightings host fs before, earlier.ts < sight.ts) events := by
  rintro before event rest rfl sight member earlier known
  rw [Clocked, sightings, collect_append, List.pairwise_append] at clocked
  exact clocked.2.2 earlier known sight (List.mem_append_left _ member)

/-- An earlier entry stays before a new one. -/
theorem add_chronological (host : Host) (store : CheckpointStore) (fs : FileSystem) (now : Nat)
    (actionId capability path : String) (ordered : Chronological store.entries)
    (earlier : ∀ entry ∈ store.entries, entry.ts < now) :
    Chronological (store.add (record host fs now actionId capability path)).entries := by
  rw [add_entries]
  refine List.pairwise_append.mpr ⟨ordered, List.pairwise_singleton _ _, ?_⟩
  intro entry listed last single
  rw [List.mem_singleton.mp single, record_ts]
  exact earlier entry listed

/-- A run on a clock that goes forward keeps its entries in the order of their times. -/
theorem Clocked.kept {host : Host} {fs : FileSystem} {events : List StoreEvent}
    (clocked : Clocked host fs events) :
    Kept host (sightings host fs events) (after host fs events).store ∧
      Chronological (after host fs events).store.entries := by
  refine invariant (step host) (start fs) _
    (fun before archive => Kept host (sightings host fs before) archive.store ∧
      Chronological archive.store.entries)
    ⟨Kept.empty host, List.Pairwise.nil⟩ ?_ events clocked.later
  rintro before event ⟨kept, ordered⟩ later
  change Kept host _ (after host fs before).store at kept
  have earlier : ∀ sight ∈ (after host fs before).sees event,
      ∀ entry ∈ (after host fs before).store.entries, entry.ts < sight.ts := by
    intro sight member entry listed
    obtain ⟨seen, known, shown⟩ := kept.seen entry listed
    rw [← shown.ts]
    exact later sight member seen known
  constructor
  · rw [sightings, collect_concat]
    exact step_kept host _ _ event kept fun sight member entry listed =>
      (earlier sight member entry listed).ne
  · rcases step_store host (after host fs before) event with
      ⟨-, same⟩ | ⟨now, actionId, capability, path, seen, same⟩
    · rw [after] at same
      rwa [same]
    · rw [after] at same
      rw [same, enforceLimits_entries]
      refine List.Pairwise.sublist List.filter_sublist (add_chronological host _ _ now actionId
        capability path ordered fun entry listed => ?_)
      exact earlier ⟨now, path, _⟩ (by rw [seen]; exact List.mem_singleton.mpr rfl) entry listed

theorem Clocked.front {host : Host} {fs : FileSystem} {events : List StoreEvent}
    {event : StoreEvent} (clocked : Clocked host fs (events ++ [event])) :
    Clocked host fs events := by
  rw [Clocked, sightings, collect_concat] at clocked
  exact (List.pairwise_append.mp clocked).1

/-- Every entry is earlier than what the next step sees. -/
theorem Clocked.earlier {host : Host} {fs : FileSystem} {events : List StoreEvent}
    {event : StoreEvent} (clocked : Clocked host fs (events ++ [event])) (sight : Sighting)
    (member : sight ∈ (after host fs events).sees event) (entry : CheckpointEntry)
    (listed : entry ∈ (after host fs events).store.entries) : entry.ts < sight.ts := by
  obtain ⟨seen, known, shown⟩ := clocked.front.kept.1.seen entry listed
  rw [← shown.ts]
  exact clocked.later.last sight member seen known

/-- A store is sound when times name entries, and each blob has the digest and the bytes its entry
was captured with. -/
structure Integrity (host : Host) (sights : List Sighting) (store : CheckpointStore) : Prop where
  distinct : (store.entries.map CheckpointEntry.ts).Nodup
  backed : ∀ entry ∈ store.entries, entry.existed = true → entry.truncated = false →
    ∃ bytes, store.blobs.lookup entry.ts = some bytes ∧ host.sha256 bytes = entry.hash
  seen : ∀ entry ∈ store.entries, ∃ sight ∈ sights, Shows host store sight entry
  picked : ∀ entry ∈ store.entries, store.entries.find? (·.ts = entry.ts) = some entry

/-- No entry that stays loses its blob or gets another one. -/
def Unharmed (before after : CheckpointStore) : Prop :=
  ∀ entry, entry ∈ before.entries → entry ∈ after.entries → entry.stored = true →
    after.blobs.lookup entry.ts = before.blobs.lookup entry.ts

theorem integrity_of_kept {host : Host} {sights : List Sighting} {store : CheckpointStore}
    (kept : Kept host sights store) : Integrity host sights store := by
  refine ⟨kept.distinct, ?_, kept.seen, kept.find⟩
  intro entry listed existed whole
  obtain ⟨sight, -, shown⟩ := kept.seen entry listed
  obtain ⟨bytes, -, held, digest, -⟩ :=
    shown.content (by simp [CheckpointEntry.stored, existed, whole])
  exact ⟨bytes, held, digest⟩

/-- A fresh step harms no entry that stays. -/
theorem step_unharmed (host : Host) (archive : Archive) (event : StoreEvent)
    (fresh : Fresh archive event) : Unharmed archive.store (archive.step host event).store := by
  intro entry listed stays _
  rcases archive.step_store host event with
    ⟨-, same⟩ | ⟨now, actionId, capability, path, seen, same⟩
  · rw [same]
  · rw [same] at stays ⊢
    rw [enforceLimits_entries, List.mem_filter] at stays
    rw [enforceLimits_lookup, if_neg (by simpa using stays.2)]
    apply add_lookup_other
    rw [record_ts]
    exact fresh ⟨now, path, archive.fs.read (.ofText path)⟩ (by simp [seen]) entry listed

/-- Two entries have one time after a step whose reading an entry already has. -/
theorem step_collides (host : Host) (archive : Archive) (event : StoreEvent)
    (distinct : ((archive.step host event).store.entries.map CheckpointEntry.ts).Nodup) :
    Fresh archive event := by
  intro sight member entry listed same
  rcases archive.step_store host event with
    ⟨nothing, -⟩ | ⟨now, actionId, capability, path, seen, after⟩
  · simp [nothing] at member
  · rw [seen, List.mem_singleton] at member
    subst member
    rw [after, enforceLimits_entries, add_entries, List.filter_append, List.map_append,
      List.nodup_append] at distinct
    have stays := skip_stays now
      (archive.store.add (record host archive.fs now actionId capability path)).entries.length
      (archive.store.entries ++ [(record host archive.fs now actionId capability path).entry])
    refine distinct.2.2 now ?_ now ?_ rfl
    · refine List.mem_map.mpr ⟨entry, List.mem_filter.mpr ⟨listed, ?_⟩, same⟩
      simpa [same] using stays
    · refine List.mem_map.mpr ⟨_, List.mem_filter.mpr ⟨List.mem_singleton.mpr rfl, ?_⟩, ?_⟩
      · simpa using stays
      · simp

/-- The machine has two files. -/
def twoFiles : FileSystem := (FileSystem.empty.put ["a"] (.file [97])).put ["b"] (.file [98])

/-- A digest that tells small files apart stands in for SHA-256. -/
def spelledHost : Host :=
  { Host.quiet with sha256 := fun bytes => String.ofList (bytes.map fun byte => Char.ofNat byte.toNat) }

end Archive

end Daemon
