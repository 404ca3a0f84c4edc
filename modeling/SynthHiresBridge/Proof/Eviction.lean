import SynthHiresBridge.Data.Suffix
import SynthHiresBridge.Posix.Unlink
import SynthHiresBridge.Daemon.Checkpoint

namespace Daemon

open Posix

namespace CheckpointEntry

/-- An entry has a blob when its target was a file that is not too large. -/
def stored (entry : CheckpointEntry) : Bool := entry.existed && !entry.truncated

end CheckpointEntry

namespace CheckpointStore

/-- A record is an entry with the bytes of its blob. -/
structure Record where
  entry : CheckpointEntry
  bytes : Option (List UInt8)

/-- A capture records a file with its bytes, and a directory or a large file by its size alone. -/
def record (host : Host) (fs : FileSystem) (ts : Nat) (actionId capability path : String) :
    Record :=
  match fs.metadata (.ofText path) with
  | .ok (.file bytes) =>
      if maxFileBytes < bytes.length then
        ⟨⟨actionId, capability, path, ts, true, bytes.length, "", true⟩, none⟩
      else ⟨⟨actionId, capability, path, ts, true, bytes.length, host.sha256 bytes, false⟩, some bytes⟩
  | .ok .dir =>
      let names := (fs.canonicalize (.ofText path)).toOption.elim [] fs.children
      ⟨⟨actionId, capability, path, ts, true, names.length, "", true⟩, none⟩
  | _ => ⟨⟨actionId, capability, path, ts, false, 0, "", false⟩, none⟩

/-- A record is added with its blob. -/
def add (store : CheckpointStore) (new : Record) : CheckpointStore :=
  ⟨store.entries ++ [new.entry], match new.bytes with
    | none => store.blobs
    | some bytes => (store.writeBlob new.entry.ts bytes).blobs⟩

/-- A capture adds a record and then enforces the limits. -/
theorem capture_eq (host : Host) (store : CheckpointStore) (fs : FileSystem) (ts : Nat)
    (actionId capability path : String) :
    capture host none store fs ts actionId capability path =
      (.ok (record host fs ts actionId capability path).entry,
        enforceLimits (store.add (record host fs ts actionId capability path)) ts) := by
  unfold capture record FileSystem.metadata
  cases resolved : fs.canonicalize (.ofText path) with
  | error _ => rfl
  | ok real =>
      cases present : fs.lookup real with
      | none => simp [Except.bind, add, present]
      | some node =>
          cases node with
          | dir => simp [Except.bind, add, present, Except.toOption]
          | symlink _ => simp [Except.bind, add, present]
          | file bytes =>
              simp only [Except.bind, Option.map_some, present]
              split <;> rfl

section Record

variable (host : Host) (fs : FileSystem) (ts : Nat) (actionId capability path : String)

/-- A record names its time, its action and its path. -/
theorem record_names :
    (record host fs ts actionId capability path).entry.ts = ts ∧
      (record host fs ts actionId capability path).entry.actionId = actionId ∧
      (record host fs ts actionId capability path).entry.capability = capability ∧
      (record host fs ts actionId capability path).entry.path = path := by
  unfold record
  split
  · split <;> simp
  · simp
  · simp

@[simp] theorem record_ts : (record host fs ts actionId capability path).entry.ts = ts :=
  (record_names host fs ts actionId capability path).1

@[simp] theorem record_path : (record host fs ts actionId capability path).entry.path = path :=
  (record_names host fs ts actionId capability path).2.2.2

/-- A missing target has an entry without a size. -/
structure Absent (record : Record) : Prop where
  missing : fs.pathExists (.ofText path) = false
  existed : record.entry.existed = false
  truncated : record.entry.truncated = false
  size : record.entry.size = 0
  bytes : record.bytes = none

/-- A directory and a large file have an entry without their content. -/
structure Metadata (record : Record) : Prop where
  present : fs.pathExists (.ofText path) = true
  kind : fs.isDir (.ofText path) = true ∨ ∃ bytes, fs.read (.ofText path) = .ok bytes ∧
    maxFileBytes < bytes.length ∧ record.entry.size = bytes.length
  existed : record.entry.existed = true
  truncated : record.entry.truncated = true
  bytes : record.bytes = none

/-- A file has an entry with its content. -/
structure Content (record : Record) (bytes : List UInt8) : Prop where
  read : fs.read (.ofText path) = .ok bytes
  small : bytes.length ≤ maxFileBytes
  existed : record.entry.existed = true
  truncated : record.entry.truncated = false
  size : record.entry.size = bytes.length
  hash : record.entry.hash = host.sha256 bytes
  bytes : record.bytes = some bytes

/-- A target is missing, or it is recorded by its size, or with its content. -/
theorem record_cases :
    Absent fs path (record host fs ts actionId capability path) ∨
      Metadata fs path (record host fs ts actionId capability path) ∨
      ∃ bytes, Content host fs path (record host fs ts actionId capability path) bytes := by
  unfold record
  cases seen : fs.metadata (.ofText path) with
  | error _ => exact .inl ⟨by simp [FileSystem.pathExists, seen], rfl, rfl, rfl, rfl⟩
  | ok node =>
      have present : fs.pathExists (.ofText path) = true := by simp [FileSystem.pathExists, seen]
      cases node with
      | dir =>
          exact .inr (.inl ⟨present, .inl (by simp [FileSystem.isDir, seen]), rfl, rfl, rfl⟩)
      | symlink link => exact absurd seen (fs.metadata_solid _ link)
      | file bytes =>
          have read : fs.read (.ofText path) = .ok bytes := by
            simp [FileSystem.read, seen, Except.bind]
          by_cases large : maxFileBytes < bytes.length
          · simp only [large, if_true]
            exact .inr (.inl ⟨present, .inr ⟨bytes, read, large, rfl⟩, rfl, rfl, rfl⟩)
          · simp only [large, if_false]
            exact .inr (.inr ⟨bytes, read, not_lt.mp large, rfl, rfl, rfl, rfl, rfl⟩)

/-- A record has an entry without a blob, or it has the content of a file. -/
theorem record_blob :
    ((record host fs ts actionId capability path).bytes = none ∧
      (record host fs ts actionId capability path).entry.stored = false) ∨
      ∃ bytes, Content host fs path (record host fs ts actionId capability path) bytes := by
  rcases record_cases host fs ts actionId capability path with absent | large | content
  · exact .inl ⟨absent.bytes, by simp [CheckpointEntry.stored, absent.existed]⟩
  · exact .inl ⟨large.bytes, by simp [CheckpointEntry.stored, large.truncated]⟩
  · exact .inr content

end Record

/-- A large file is recorded by its size alone. -/
theorem record_large (host : Host) (fs : FileSystem) (ts : Nat) (actionId capability path : String)
    (bytes : List UInt8) (read : fs.read (.ofText path) = .ok bytes)
    (large : maxFileBytes < bytes.length) :
    (record host fs ts actionId capability path).bytes = none ∧
      (record host fs ts actionId capability path).entry.stored = false ∧
      (record host fs ts actionId capability path).entry.size = bytes.length := by
  have seen := fs.metadata_of_read _ bytes read
  unfold record
  rw [seen]
  simp [large, CheckpointEntry.stored]

/-- A file is recorded with its bytes unless it is large. -/
theorem record_bytes (host : Host) (fs : FileSystem) (ts : Nat) (actionId capability path : String)
    (bytes : List UInt8) (read : fs.read (.ofText path) = .ok bytes) :
    (record host fs ts actionId capability path).bytes =
      if maxFileBytes < bytes.length then none else some bytes := by
  have seen := fs.metadata_of_read _ bytes read
  unfold record
  rw [seen]
  simp only
  split <;> rfl

theorem record_missing (host : Host) (fs : FileSystem) (ts : Nat)
    (actionId capability path : String) (missing : fs.pathExists (.ofText path) = false) :
    (record host fs ts actionId capability path).bytes = none := by
  rcases record_blob host fs ts actionId capability path with ⟨none, -⟩ | ⟨bytes, content⟩
  · exact none
  · have seen := fs.metadata_of_read _ bytes content.read
    simp [FileSystem.pathExists, seen] at missing

theorem Content.stored {host : Host} {fs : FileSystem} {path : String} {record : Record}
    {bytes : List UInt8} (content : Content host fs path record bytes) :
    record.entry.stored = true := by
  simp [CheckpointEntry.stored, content.existed, content.truncated]

/-- The limits count every entry by the size it records. -/
def WithinLimits (entries : List CheckpointEntry) : Prop :=
  entries.length ≤ maxCheckpoints ∧ (entries.map CheckpointEntry.size).sum ≤ maxTotalBytes

instance : DecidablePred WithinLimits := fun _ => inferInstanceAs (Decidable (_ ∧ _))

/-- An entry that takes the whole budget leaves no room for another one. -/
theorem pair_exceeds (first second : CheckpointEntry) (positive : 0 < first.size)
    (large : second.size = maxTotalBytes) :
    maxTotalBytes < ([first, second].map CheckpointEntry.size).sum := by
  simp only [List.map_cons, List.map_nil, List.sum_cons, List.sum_nil, large]
  omega

theorem enforceFrom_succ (skipTs rounds : Nat) (store : CheckpointStore) :
    enforceFrom skipTs (rounds + 1) store =
      if WithinLimits store.entries then store
      else match victim store.entries skipTs with
        | none => store
        | some gone => enforceFrom skipTs rounds
            ⟨store.entries.filter (·.ts ≠ gone.ts), store.blobs.filter (·.1 ≠ gone.ts)⟩ := rfl

theorem victim_concat (entries : List CheckpointEntry) (last : CheckpointEntry) (skipTs : Nat) :
    victim (entries ++ [last]) skipTs =
      if last.ts = skipTs then victim entries skipTs
      else match victim entries skipTs with
        | none => some last
        | some held => if last.ts < held.ts then some last else some held := by
  rw [victim, List.foldl_append]
  change (if last.ts = skipTs then victim entries skipTs
    else match victim entries skipTs with
      | none => some last
      | some held => if last.ts < held.ts then some last else victim entries skipTs) = _
  cases victim entries skipTs <;> rfl

/-- A round finds no victim when only the skipped time is left. -/
theorem victim_none (entries : List CheckpointEntry) (skipTs : Nat)
    (nobody : victim entries skipTs = none) : ∀ entry ∈ entries, entry.ts = skipTs := by
  induction entries using List.reverseRecOn with
  | nil => simp
  | append_singleton entries last ih =>
      rw [victim_concat] at nobody
      split at nobody
      · rename_i own
        intro entry listed
        rcases List.mem_append.mp listed with before | final
        · exact ih nobody entry before
        · rw [List.mem_singleton.mp final, own]
      · split at nobody
        · cases nobody
        · split at nobody <;> cases nobody

/-- The victim of a round is an oldest entry under another time than the skipped one. -/
theorem victim_some (entries : List CheckpointEntry) (skipTs : Nat) (gone : CheckpointEntry)
    (chosen : victim entries skipTs = some gone) :
    gone ∈ entries ∧ gone.ts ≠ skipTs ∧
      ∀ entry ∈ entries, entry.ts ≠ skipTs → gone.ts ≤ entry.ts := by
  induction entries using List.reverseRecOn generalizing gone with
  | nil => simp [victim] at chosen
  | append_singleton entries last ih =>
      rw [victim_concat] at chosen
      by_cases own : last.ts = skipTs
      · rw [if_pos own] at chosen
        obtain ⟨member, other, oldest⟩ := ih gone chosen
        refine ⟨List.mem_append_left _ member, other, ?_⟩
        intro entry listed apart
        rcases List.mem_append.mp listed with before | final
        · exact oldest entry before apart
        · rw [List.mem_singleton.mp final] at apart
          exact absurd own apart
      · rw [if_neg own] at chosen
        cases held : victim entries skipTs with
        | none =>
            rw [held] at chosen
            obtain rfl : last = gone := Option.some.inj chosen
            refine ⟨by simp, own, ?_⟩
            intro entry listed apart
            rcases List.mem_append.mp listed with before | final
            · exact absurd (victim_none entries skipTs held entry before) apart
            · rw [List.mem_singleton.mp final]
        | some best =>
            rw [held] at chosen
            obtain ⟨member, other, oldest⟩ := ih best held
            by_cases older : last.ts < best.ts
            · simp only [older, if_true] at chosen
              obtain rfl : last = gone := Option.some.inj chosen
              refine ⟨by simp, own, ?_⟩
              intro entry listed apart
              rcases List.mem_append.mp listed with before | final
              · exact older.le.trans (oldest entry before apart)
              · rw [List.mem_singleton.mp final]
            · simp only [older, if_false] at chosen
              obtain rfl : best = gone := Option.some.inj chosen
              refine ⟨List.mem_append_left _ member, other, ?_⟩
              intro entry listed apart
              rcases List.mem_append.mp listed with before | final
              · exact oldest entry before apart
              · rw [List.mem_singleton.mp final]
                exact not_lt.mp older

/-- The times that leave the store, in the order in which they leave. -/
def evicted (skipTs : Nat) : Nat → List CheckpointEntry → List Nat
  | 0, _ => []
  | rounds + 1, entries =>
      if WithinLimits entries then []
      else match victim entries skipTs with
        | none => []
        | some gone => gone.ts :: evicted skipTs rounds (entries.filter (·.ts ≠ gone.ts))

/-- What has none of some times is what is left after one time and then the others are dropped. -/
theorem filter_gone_cons {Item : Type} (time : Item → Nat) (items : List Item) (ts : Nat)
    (gone : List Nat) :
    (items.filter (time · ≠ ts)).filter (time · ∉ gone) =
      items.filter (time · ∉ ts :: gone) := by
  rw [List.filter_filter]
  apply List.filter_congr
  intro item _
  simp only [List.mem_cons, not_or, ne_eq, decide_not, Bool.decide_and]
  exact Bool.and_comm ..

/-- Enforcing the limits drops the entries and the blobs of the evicted times. -/
theorem enforceFrom_eq (skipTs rounds : Nat) (store : CheckpointStore) :
    enforceFrom skipTs rounds store =
      ⟨store.entries.filter (·.ts ∉ evicted skipTs rounds store.entries),
        store.blobs.filter (·.1 ∉ evicted skipTs rounds store.entries)⟩ := by
  induction rounds generalizing store with
  | zero => simp [enforceFrom, evicted]
  | succ rounds ih =>
      rw [enforceFrom_succ, evicted]
      by_cases within : WithinLimits store.entries
      · rw [if_pos within, if_pos within]
        simp
      · rw [if_neg within, if_neg within]
        cases chosen : victim store.entries skipTs with
        | none => simp
        | some gone =>
            simp only [ih]
            rw [filter_gone_cons CheckpointEntry.ts, filter_gone_cons Prod.fst]

/-- The skipped time stays. -/
theorem skip_stays (skipTs rounds : Nat) (entries : List CheckpointEntry) :
    skipTs ∉ evicted skipTs rounds entries := by
  induction rounds generalizing entries with
  | zero => simp [evicted]
  | succ rounds ih =>
      rw [evicted]
      split
      · simp
      · split
        · simp
        · rename_i gone chosen
          obtain ⟨-, other, -⟩ := victim_some entries skipTs gone chosen
          simp [other.symm, ih]

/-- Dropping the blobs of some times keeps the other blobs. -/
theorem lookup_kept (blobs : List (Nat × List UInt8)) (gone : List Nat) (ts : Nat) :
    (blobs.filter (·.1 ∉ gone)).lookup ts = if ts ∈ gone then none else blobs.lookup ts := by
  induction blobs with
  | nil => simp
  | cons blob rest ih =>
      rcases blob with ⟨key, bytes⟩
      by_cases own : ts = key
      · subst own
        by_cases leaves : ts ∈ gone
        · rw [List.filter_cons_of_neg (by simpa using leaves), ih, if_pos leaves, if_pos leaves]
        · rw [List.filter_cons_of_pos (by simpa using leaves), if_neg leaves]
          simp
      · have apart : (ts == key) = false := by simpa using own
        by_cases leaves : key ∈ gone
        · rw [List.filter_cons_of_neg (by simpa using leaves), ih]
          simp [List.lookup_cons, apart]
        · rw [List.filter_cons_of_pos (by simpa using leaves), List.lookup_cons, apart, ih]
          simp [List.lookup_cons, apart]

theorem enforceLimits_entries (store : CheckpointStore) (skipTs : Nat) :
    (enforceLimits store skipTs).entries = store.entries.filter
      (·.ts ∉ evicted skipTs store.entries.length store.entries) := by
  rw [enforceLimits, enforceFrom_eq]

theorem enforceLimits_lookup (store : CheckpointStore) (skipTs ts : Nat) :
    (enforceLimits store skipTs).blobs.lookup ts =
      if ts ∈ evicted skipTs store.entries.length store.entries then none
      else store.blobs.lookup ts := by
  rw [enforceLimits, enforceFrom_eq, lookup_kept]

@[simp] theorem add_entries (store : CheckpointStore) (new : Record) :
    (store.add new).entries = store.entries ++ [new.entry] := rfl

theorem add_lookup_own (store : CheckpointStore) (new : Record) (bytes : List UInt8)
    (content : new.bytes = some bytes) :
    (store.add new).blobs.lookup new.entry.ts = some bytes := by
  simp [add, content, writeBlob]

theorem add_lookup_other (store : CheckpointStore) (new : Record) (ts : Nat)
    (other : ts ≠ new.entry.ts) : (store.add new).blobs.lookup ts = store.blobs.lookup ts := by
  unfold add writeBlob
  cases new.bytes with
  | none => rfl
  | some bytes =>
      have apart : (ts == new.entry.ts) = false := by simpa using other
      have kept := lookup_kept store.blobs [new.entry.ts] ts
      simp only [List.mem_singleton, other, if_false] at kept
      simpa [List.lookup_cons, apart] using kept

/-- A blob of a store with a new record is an old one or the one of the record. -/
theorem mem_add_blobs {store : CheckpointStore} {new : Record} {held : Nat × List UInt8}
    (member : held ∈ (store.add new).blobs) :
    held ∈ store.blobs ∨ held.1 = new.entry.ts ∧ new.bytes = some held.2 := by
  unfold add writeBlob at member
  cases content : new.bytes with
  | none =>
      rw [content] at member
      exact .inl member
  | some bytes =>
      rw [content] at member
      rcases List.mem_cons.mp member with rfl | older
      · exact .inr ⟨rfl, rfl⟩
      · exact .inl (List.mem_filter.mp older).1

/-- A capture changes the index, since the record it adds stays. -/
theorem enforceLimits_add_ne (store : CheckpointStore) (new : Record) :
    enforceLimits (store.add new) new.entry.ts ≠ store := by
  intro same
  have entries := congrArg CheckpointStore.entries same
  have skipped := skip_stays new.entry.ts (store.add new).entries.length (store.add new).entries
  rw [enforceLimits_entries] at entries
  generalize evicted new.entry.ts (store.add new).entries.length (store.add new).entries = gone
    at entries skipped
  have laden : (store.entries ++ [new.entry]).filter (·.ts ∉ gone) = store.entries := entries
  rw [List.filter_append, List.filter_cons_of_pos (by simpa using skipped),
    List.filter_nil] at laden
  -- Every entry stays: it is a kept one or the new one.
  have stay : store.entries.filter (·.ts ∉ gone) = store.entries := by
    rw [List.filter_eq_self]
    intro entry listed
    rw [← laden] at listed
    rcases List.mem_append.mp listed with kept | last
    · exact (List.mem_filter.mp kept).2
    · rw [List.mem_singleton.mp last]
      simpa using skipped
  rw [stay] at laden
  simpa using congrArg List.length laden

/-- The times of the entries increase. -/
def Chronological (entries : List CheckpointEntry) : Prop :=
  entries.Pairwise fun first second => first.ts < second.ts

/-- In the order of their times the entries are trimmed from the front. -/
theorem enforceFrom_trim (rounds : Nat) (store : CheckpointStore) (before : List CheckpointEntry)
    (last : CheckpointEntry) (same : store.entries = before ++ [last])
    (ordered : Chronological store.entries) (enough : before.length ≤ rounds) :
    (enforceFrom last.ts rounds store).entries = Suffix.trim WithinLimits store.entries := by
  induction before generalizing rounds store with
  | nil =>
      have single : store.entries = [last] := same
      rw [single, Suffix.trim_singleton]
      cases rounds with
      | zero => exact single
      | succ rounds =>
          rw [enforceFrom_succ, single]
          have nobody : victim [last] last.ts = none := by simp [victim]
          rw [nobody]
          split <;> exact single
  | cons first rest ih =>
      cases rounds with
      | zero => simp at enough
      | succ rounds =>
          rw [List.cons_append] at same
          have later : ∀ entry ∈ rest ++ [last], first.ts < entry.ts := by
            rw [Chronological, same] at ordered
            exact fun entry listed => List.rel_of_pairwise_cons ordered listed
          have apart : first.ts ≠ last.ts := (later last (by simp)).ne
          rw [enforceFrom_succ, same, Suffix.trim_cons WithinLimits first _ (by simp)]
          by_cases within : WithinLimits (first :: (rest ++ [last]))
          · rw [if_pos within, if_pos within, same]
          · rw [if_neg within, if_neg within]
            cases chosen : victim (first :: (rest ++ [last])) last.ts with
            | none =>
                have only := victim_none _ _ chosen first (by simp)
                exact absurd only apart
            | some gone =>
                obtain ⟨member, -, oldest⟩ := victim_some _ _ gone chosen
                have front : gone.ts = first.ts := by
                  apply le_antisymm (oldest first (by simp) apart)
                  rcases List.mem_cons.mp member with rfl | inside
                  · exact le_rfl
                  · exact (later gone inside).le
                have tail : (first :: (rest ++ [last])).filter (·.ts ≠ gone.ts) = rest ++ [last] := by
                  rw [front, List.filter_cons_of_neg (by simp), List.filter_eq_self]
                  intro entry listed
                  simpa using (later entry listed).ne'
                simp only [tail]
                apply ih rounds ⟨rest ++ [last], _⟩ rfl
                · rw [Chronological, same] at ordered
                  exact ordered.tail
                · simpa using enough

theorem enforceLimits_trim (store : CheckpointStore) (before : List CheckpointEntry)
    (last : CheckpointEntry) (same : store.entries = before ++ [last])
    (ordered : Chronological store.entries) :
    (enforceLimits store last.ts).entries = Suffix.trim WithinLimits store.entries :=
  enforceFrom_trim _ store before last same ordered (by simp [same])

/-- The entries from an entry on are the later ones. -/
theorem filter_from (before later : List CheckpointEntry) (entry : CheckpointEntry)
    (ordered : Chronological (before ++ entry :: later)) :
    (before ++ entry :: later).filter (entry.ts ≤ ·.ts) = entry :: later := by
  obtain ⟨-, tail, apart⟩ := List.pairwise_append.mp ordered
  have front : before.filter (entry.ts ≤ ·.ts) = [] := by
    rw [List.filter_eq_nil_iff]
    intro other listed
    simpa using apart other listed entry (by simp)
  have rest : (entry :: later).filter (entry.ts ≤ ·.ts) = entry :: later := by
    rw [List.filter_eq_self]
    intro other listed
    rcases List.mem_cons.mp listed with rfl | after
    · simp
    · simpa using (List.rel_of_pairwise_cons tail after).le
  rw [List.filter_append, front, rest, List.nil_append]

theorem withinLimits_hereditary : Suffix.Hereditary WithinLimits := by
  intro first rest within
  obtain ⟨few, small⟩ := within
  simp only [List.length_cons, List.map_cons, List.sum_cons] at few small
  exact ⟨by omega, by omega⟩

/-- An entry stays exactly when the entries from it on are within the limits. -/
theorem stays_iff (store : CheckpointStore) (before : List CheckpointEntry)
    (last : CheckpointEntry) (same : store.entries = before ++ [last])
    (ordered : Chronological store.entries) (entry : CheckpointEntry) (listed : entry ∈ before) :
    entry.ts ∉ evicted last.ts store.entries.length store.entries ↔
      WithinLimits (before.filter (entry.ts ≤ ·.ts) ++ [last]) := by
  obtain ⟨front, later, rfl⟩ := List.append_of_mem listed
  have shape : store.entries = front ++ entry :: (later ++ [last]) := by rw [same]; simp
  have trimmed := enforceLimits_trim store _ last same ordered
  have distinct : store.entries.Nodup := ordered.imp fun less equal => by simp [equal] at less
  have member : entry ∈ (enforceLimits store last.ts).entries ↔
      entry.ts ∉ evicted last.ts store.entries.length store.entries := by
    rw [enforceLimits_entries, List.mem_filter]
    simp [shape]
  have ordered_front : Chronological (front ++ entry :: later) := by
    rw [same] at ordered
    exact (List.pairwise_append.mp ordered).1
  rw [← member, trimmed, filter_from front later entry ordered_front]
  rw [shape] at distinct ⊢
  rw [Suffix.mem_iff_cons_suffix distinct (Suffix.trim_suffix WithinLimits _),
    Suffix.cons_suffix_trim_iff WithinLimits withinLimits_hereditary]
  rfl

end CheckpointStore

end Daemon
