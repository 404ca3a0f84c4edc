import SynthHiresBridge.Data.Cut
import SynthHiresBridge.Data.Separated
import SynthHiresBridge.Proof.Memory

namespace Daemon

namespace MemoryStore

/-- An entry comes back from a store: its row is read as this entry, a recall of everything that has
room for the project gives it, and no recall gives another entry with its id. -/
structure ComesBack (store : MemoryStore) (project : String) (entry : MemoryEntry) : Prop where
  read : ∃ row, store.memories.lookup entry.id = some row ∧ row.project = project ∧
    row.toEntry entry.id = entry
  found : ∀ moment limit, store.total project ≤ recallLimit limit →
    entry ∈ store.recalled moment project none limit
  same : ∀ moment query limit, ∀ other ∈ store.recalled moment project query limit,
    other.id = entry.id → other = entry

/-- The entry that is remembered, with the tags as they were given. -/
def given (host : Host) (moment : MemoryMoment) (project content : String) (kind : Option String)
    (importance : Option Int) (tags : List String) (id : Int) : MemoryEntry :=
  { (newRow host moment project (Text.trim content) kind importance tags).toEntry id with tags := tags }

section Tags

/-- A tag that is read is trimmed and has no comma. -/
theorem plain_of_parseTags {text tag : String} (member : tag ∈ parseTags (some text)) :
    ',' ∉ tag.toList ∧ Text.trim tag = tag := by
  obtain ⟨inside, -⟩ := List.mem_filter.mp member
  obtain ⟨piece, listed, rfl⟩ := List.mem_map.mp inside
  refine ⟨?_, Text.trim_trim piece⟩
  obtain ⟨chars, cut, rfl⟩ := List.mem_map.mp listed
  obtain ⟨lead, trail, whole, -, -⟩ := Text.trim_parts (String.ofList chars)
  intro comma
  have held : ',' ∈ chars := by
    rw [String.toList_ofList] at whole
    rw [whole]
    exact List.mem_append_left trail (List.mem_append_right lead comma)
  have other := (Separated.mem_splitOnP_iff.mp ⟨chars, cut, held⟩).2
  exact absurd other (by decide)

theorem parseTags_joined {tags : List String} (filled : ∀ tag ∈ tags, tag ≠ "")
    (plain : ∀ tag ∈ tags, ',' ∉ tag.toList ∧ Text.trim tag = tag) :
    parseTags (some (",".intercalate tags)) = tags := by
  cases tags with
  | nil => decide
  | cons first rest =>
      have pieces : Text.split (",".intercalate (first :: rest)) (· == ',') = first :: rest := by
        have clean : ∀ chars ∈ (first :: rest).map String.toList, ',' ∉ chars := by
          intro chars member
          obtain ⟨tag, listed, rfl⟩ := List.mem_map.mp member
          exact (plain tag listed).1
        have cut := List.splitOn_intercalate ',' clean (List.cons_ne_nil _ _)
        have comma : ",".toList = [','] := by decide
        have back : ((first :: rest).map String.toList).map String.ofList = first :: rest := by
          rw [List.map_map]
          exact List.map_id'' (fun tag => String.ofList_toList) _
        rw [Text.split, String.toList_intercalate, comma]
        exact (congrArg (List.map String.ofList) cut).trans back
      have trimmed : (first :: rest).map Text.trim = first :: rest :=
        (List.map_congr_left fun tag member => (plain tag member).2).trans (List.map_id _)
      rw [parseTags, pieces, trimmed, List.filter_eq_self]
      exact fun tag member => decide_eq_true (filled tag member)

/-- Tags that are not blank are read as they were written just where they are trimmed and have no
comma. -/
theorem parseTags_iff {tags : List String} (filled : ∀ tag ∈ tags, Text.trim tag ≠ "") :
    parseTags (some (",".intercalate tags)) = tags ↔
      ∀ tag ∈ tags, ',' ∉ tag.toList ∧ Text.trim tag = tag := by
  constructor
  · intro same tag member
    rw [← same] at member
    exact plain_of_parseTags member
  · intro plain
    refine parseTags_joined ?_ plain
    rintro tag member rfl
    exact filled _ member (by decide)

end Tags

section Remember

variable {store after : MemoryStore} {host : Host} {moment : MemoryMoment}
  {project content : String} {kind : Option String} {importance : Option Int} {tags : List String}
  {id : Int} {total : Nat}

/-- A remember that is not a repetition stores one row under the next id. -/
theorem row_of_remember (written : store.remember host moment project content kind importance tags =
    (.ok (.write id false total), after)) : after.memories.lookup id =
      some (newRow host moment project (Text.trim content) kind importance tags) := by
  by_cases empty : Text.trim content = ""
  · rw [store.remember_blank host moment project kind importance tags empty] at written
    cases (Prod.mk.inj written).1
  · cases known : store.dedup project (contentHash host (Text.trim content)) with
    | some found =>
        rw [store.remember_known host moment project kind importance tags empty known] at written
        cases (Prod.mk.inj written).1
    | none =>
        by_cases used : store.sequence = maxRowid
        · rw [store.remember_exhausted host moment project kind importance tags empty known used]
            at written
          cases (Prod.mk.inj written).1
        · rw [store.remember_new host moment project kind importance tags empty known used] at written
          obtain ⟨answer, rfl⟩ := Prod.mk.inj written
          obtain ⟨rfl, -, -⟩ := MemoryResult.write.inj (Except.ok.inj answer)
          exact AList.lookup_insert _

/-- A recall without a query has all rows of a project if it has room for them. -/
theorem mem_recalled_of_room {row : MemoryRow} (held : store.memories.lookup id = some row)
    (own : row.project = project) {limit : Option Int} (room : store.total project ≤ recallLimit limit) :
    row.toEntry id ∈ store.recalled moment project none limit := by
  have everything : recallStrategy moment none = .all := by
    rw [recallStrategy]
    exact if_pos (by decide)
  rw [recalled, everything]
  have few : (store.memories.select (fun _ row => row.project == project &&
      Strategy.all.keeps moment row.content) rankedBefore).length ≤ recallLimit limit := by
    rw [Table.select, List.length_insertionSort, List.filter_map, List.length_map]
    refine le_trans (le_of_eq ?_) room
    rw [MemoryStore.total, Table.count]
    congr 2
    funext entry
    exact Bool.and_true _
  rw [List.take_of_length_le few]
  refine List.mem_map.mpr ⟨(id, row), (Table.mem_select _ _ _ _ _).mpr ⟨held, ?_⟩, rfl⟩
  rw [own, beq_self_eq_true]
  rfl

end Remember

/-- The entry of a new row comes back with its tags just where each tag is trimmed and has no
comma. -/
theorem comes_back_iff {store after : MemoryStore} {host : Host} {moment : MemoryMoment}
    {project content : String} {kind : Option String} {importance : Option Int} {tags : List String}
    {id : Int} {total : Nat} (filled : ∀ tag ∈ tags, Text.trim tag ≠ "")
    (written : store.remember host moment project content kind importance tags =
      (.ok (.write id false total), after)) :
    after.ComesBack project (given host moment project content kind importance tags id) ↔
      ∀ tag ∈ tags, ',' ∉ tag.toList ∧ Text.trim tag = tag := by
  have held := row_of_remember written
  rw [← parseTags_iff filled]
  constructor
  · intro back
    obtain ⟨row, own, -, same⟩ := back.read
    obtain rfl := Option.some.inj (held.symm.trans own)
    exact congrArg MemoryEntry.tags same
  · intro read
    have entry : (newRow host moment project (Text.trim content) kind importance tags).toEntry id =
        given host moment project content kind importance tags id := by
      rw [MemoryRow.toEntry, given, MemoryRow.toEntry]
      congr 1
    refine ⟨⟨_, held, rfl, entry⟩, ?_, ?_⟩
    · intro other limit room
      rw [← entry]
      exact mem_recalled_of_room held rfl room
    · intro other query limit found member same
      obtain ⟨row, own, -, whole⟩ := mem_recalled member
      rw [same] at own whole
      obtain rfl := Option.some.inj (held.symm.trans own)
      exact whole.symm.trans entry

def morning : MemoryMoment := ⟨0, none, fun _ _ => false⟩

def remembered (tags : List String) : Except String MemoryResult × MemoryStore :=
  empty.remember .quiet morning "bridge" "uses tokio" none none tags

theorem remembered_first (tags : List String) : ∃ total,
    remembered tags = (.ok (.write 1 false total), (remembered tags).2) := by
  have full : Text.trim "uses tokio" ≠ "" := by decide
  have unknown : empty.dedup "bridge" (contentHash .quiet (Text.trim "uses tokio")) = none := by
    decide
  have written := empty.remember_new .quiet morning "bridge" none none tags full unknown (by decide)
  rw [remembered, written]
  exact ⟨_, rfl⟩

theorem plain_tags_come_back : (remembered ["rust", "async io"]).2.ComesBack "bridge"
    (given .quiet morning "bridge" "uses tokio" none none ["rust", "async io"] 1) := by
  obtain ⟨total, written⟩ := remembered_first ["rust", "async io"]
  exact (comes_back_iff (by decide) written).mpr (by decide)

/-- A tag with a comma comes back as two tags. -/
theorem comma_splits_tag : ¬ (remembered ["rust, async"]).2.ComesBack "bridge"
    (given .quiet morning "bridge" "uses tokio" none none ["rust, async"] 1) := by
  intro back
  obtain ⟨total, written⟩ := remembered_first ["rust, async"]
  obtain ⟨row, held, -, same⟩ := back.read
  obtain rfl := Option.some.inj ((row_of_remember written).symm.trans held)
  exact absurd (congrArg MemoryEntry.tags same) (by decide)

end MemoryStore

end Daemon
