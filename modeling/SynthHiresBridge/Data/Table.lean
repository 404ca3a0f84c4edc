import Mathlib.Data.List.AList
import Mathlib.Data.List.Induction
import Mathlib.Data.List.Sort
import Mathlib.Data.Set.Card

/-- A table has at most one row for each primary key. -/
abbrev Table (Key Row : Type) := AList fun _ : Key => Row

namespace Table

variable {Key Row : Type} [DecidableEq Key]

/-- `UPDATE` changes rows in place. -/
def update (table : Table Key Row) (change : Key → Row → Row) : Table Key Row :=
  ⟨table.entries.map fun entry => ⟨entry.1, change entry.1 entry.2⟩, by
    rw [List.NodupKeys, List.keys, List.map_map]
    exact table.nodupKeys⟩

/-- `DELETE` drops the rows that a condition names. -/
def deleteWhere (table : Table Key Row) (gone : Key → Row → Bool) : Table Key Row :=
  ⟨table.entries.filter fun entry => !gone entry.1 entry.2,
    List.NodupKeys.sublist List.filter_sublist table.nodupKeys⟩

/-- `INSERT` with an `ON CONFLICT` clause adds a row, or it merges it into the one with its key. -/
def upsert (table : Table Key Row) (key : Key) (row : Row) (merge : Row → Row) : Table Key Row :=
  match table.lookup key with
  | none => table.insert key row
  | some _ => table.update fun other old => if other = key then merge old else old

/-- `SELECT` with `WHERE` and `ORDER BY` gives the rows with their keys. -/
def select (table : Table Key Row) (keep : Key → Row → Bool) (before : Key × Row → Key × Row → Bool) :
    List (Key × Row) :=
  ((table.entries.map fun entry => (entry.1, entry.2)).filter fun entry =>
    keep entry.1 entry.2).insertionSort fun first second => before first second = true

/-- `SELECT` of at most one row. -/
def find (table : Table Key Row) (keep : Key → Row → Bool) : Option (Key × Row) :=
  (table.entries.find? fun entry => keep entry.1 entry.2).map fun entry => (entry.1, entry.2)

/-- `SELECT count(*)` counts the rows of a condition. -/
def count (table : Table Key Row) (keep : Key → Row → Bool) : Nat :=
  (table.entries.filter fun entry => keep entry.1 entry.2).length

@[simp] theorem lookup_update (table : Table Key Row) (change : Key → Row → Row) (key : Key) :
    (table.update change).lookup key = (table.lookup key).map (change key) :=
  List.dlookup_map₂ key

omit [DecidableEq Key] in
theorem update_self (table : Table Key Row) : (table.update fun _ row => row) = table := by
  apply AList.ext
  show table.entries.map _ = table.entries
  simp

omit [DecidableEq Key] in
theorem update_update (table : Table Key Row) (first second : Key → Row → Row) :
    (table.update first).update second =
      table.update fun key row => second key (first key row) := by
  apply AList.ext
  show (table.entries.map _).map _ = table.entries.map _
  rw [List.map_map]
  rfl

theorem lookup_deleteWhere (table : Table Key Row) (gone : Key → Row → Bool) (key : Key) :
    (table.deleteWhere gone).lookup key = (table.lookup key).filter fun row => !gone key row := by
  apply Option.ext
  intro row
  show row ∈ (table.deleteWhere gone).lookup key ↔ _
  rw [AList.mem_lookup_iff, deleteWhere, List.mem_filter, ← AList.mem_lookup_iff,
    Option.filter_eq_some_iff]
  rfl

theorem lookup_upsert (table : Table Key Row) (key : Key) (row : Row) (merge : Row → Row)
    (other : Key) : (table.upsert key row merge).lookup other =
      if other = key then some ((table.lookup key).elim row merge) else table.lookup other := by
  unfold upsert
  cases held : table.lookup key with
  | none =>
      by_cases same : other = key
      · rw [same, AList.lookup_insert, if_pos rfl]
        rfl
      · rw [AList.lookup_insert_ne same, if_neg same]
  | some old =>
      rw [lookup_update]
      by_cases same : other = key
      · rw [same, held, if_pos rfl]
        simp
      · rw [if_neg same]
        simp [same]

/-- A row with an older stamp than the stored one is dropped, and any other row replaces it. -/
def putLatest (table : Table Key Row) (stamp : Row → Int) (key : Key) (row : Row) : Table Key Row :=
  if (table.lookup key).any fun old => decide (stamp row < stamp old) then table
  else table.upsert key row fun _ => row

theorem lookup_putLatest_none {table : Table Key Row} {key : Key} (missing : table.lookup key = none)
    (stamp : Row → Int) (row : Row) : (table.putLatest stamp key row).lookup key = some row := by
  simp [putLatest, missing, lookup_upsert]

theorem lookup_putLatest_some {table : Table Key Row} {key : Key} {old : Row}
    (held : table.lookup key = some old) (stamp : Row → Int) (row : Row) :
    (table.putLatest stamp key row).lookup key =
      if stamp row < stamp old then some old else some row := by
  unfold putLatest
  by_cases stale : stamp row < stamp old
  · simp [held, stale]
  · simp [held, stale, lookup_upsert]

/-- After some rows with one key the table holds one of them with the greatest stamp. -/
theorem lookup_foldl_putLatest {table : Table Key Row} {key : Key}
    (missing : table.lookup key = none) (stamp : Row → Int) {rows : List Row} (any : rows ≠ []) :
    ∃ row ∈ rows, (rows.foldl (fun held row => held.putLatest stamp key row) table).lookup key =
      some row ∧ ∀ other ∈ rows, stamp other ≤ stamp row := by
  induction rows using List.reverseRecOn with
  | nil => exact absurd rfl any
  | append_singleton rows last ih =>
      rw [List.foldl_concat]
      by_cases first : rows = []
      · subst first
        refine ⟨last, by simp, lookup_putLatest_none missing stamp last, ?_⟩
        intro other member
        rw [List.mem_singleton.mp member]
      · obtain ⟨row, member, held, greatest⟩ := ih first
        rw [lookup_putLatest_some held]
        by_cases stale : stamp last < stamp row
        · refine ⟨row, List.mem_append_left _ member, if_pos stale, ?_⟩
          intro other listed
          rcases List.mem_append.mp listed with earlier | own
          · exact greatest other earlier
          · rw [List.mem_singleton.mp own]
            exact stale.le
        · refine ⟨last, by simp, if_neg stale, ?_⟩
          intro other listed
          rcases List.mem_append.mp listed with earlier | own
          · exact (greatest other earlier).trans (not_lt.mp stale)
          · rw [List.mem_singleton.mp own]

omit [DecidableEq Key] in
theorem find_update (table : Table Key Row) (change : Key → Row → Row) (keep : Key → Row → Bool)
    (same : ∀ key row, keep key (change key row) = keep key row) :
    (table.update change).find keep =
      (table.find keep).map fun entry => (entry.1, change entry.1 entry.2) := by
  simp only [find, update, List.find?_map, Option.map_map, Function.comp_def, same]

theorem lookup_of_find {table : Table Key Row} {keep : Key → Row → Bool} {key : Key} {row : Row}
    (found : table.find keep = some (key, row)) :
    table.lookup key = some row ∧ keep key row = true := by
  obtain ⟨entry, held, same⟩ := Option.map_eq_some_iff.mp found
  cases same
  have kept : keep entry.1 entry.2 = true := by simpa using List.find?_some held
  exact ⟨AList.mem_lookup_iff.mpr (List.mem_of_find?_eq_some held), kept⟩

theorem find_eq_none_iff (table : Table Key Row) (keep : Key → Row → Bool) :
    table.find keep = none ↔ ∀ key row, table.lookup key = some row → keep key row = false := by
  rw [find, Option.map_eq_none_iff, List.find?_eq_none]
  constructor
  · intro missing key row held
    simpa using missing ⟨key, row⟩ (AList.mem_lookup_iff.mp held)
  · intro missing entry member
    simpa using missing entry.1 entry.2 (AList.mem_lookup_iff.mpr member)

/-- The rows of a condition are counted by any of their columns that tells them apart. -/
theorem count_eq_ncard {Column : Type} (table : Table Key Row) (keep : Key → Row → Bool)
    (column : Key → Row → Column)
    (apart : ∀ key row other held, table.lookup key = some row → keep key row = true →
      table.lookup other = some held → keep other held = true → column key row = column other held →
      key = other) :
    table.count keep = Set.ncard {value | ∃ key row, table.lookup key = some row ∧
      keep key row = true ∧ column key row = value} := by
  classical
  have listed : ∀ entry ∈ table.entries.filter fun entry => keep entry.1 entry.2,
      table.lookup entry.1 = some entry.2 ∧ keep entry.1 entry.2 = true := by
    intro entry member
    obtain ⟨inside, kept⟩ := List.mem_filter.mp member
    exact ⟨AList.mem_lookup_iff.mpr inside, kept⟩
  have distinct : ((table.entries.filter fun entry => keep entry.1 entry.2).map
      fun entry => column entry.1 entry.2).Nodup := by
    apply List.Nodup.map_on
    · intro first one second two same
      have keys := apart _ _ _ _ (listed first one).1 (listed first one).2 (listed second two).1
        (listed second two).2 same
      rcases first with ⟨key, row⟩
      rcases second with ⟨other, held⟩
      obtain rfl : key = other := keys
      obtain rfl : row = held := Option.some.inj ((listed _ one).1.symm.trans (listed _ two).1)
      rfl
    · exact table.nodupKeys.nodup.sublist List.filter_sublist
  rw [count, ← List.length_map (fun entry => column entry.1 entry.2), ← List.toFinset_card_of_nodup distinct,
    ← Set.ncard_coe_finset]
  congr 1
  ext value
  simp only [List.coe_toFinset, Set.mem_ofPred_eq, List.mem_map]
  constructor
  · rintro ⟨entry, member, rfl⟩
    exact ⟨entry.1, entry.2, (listed entry member).1, (listed entry member).2, rfl⟩
  · rintro ⟨key, row, held, kept, rfl⟩
    exact ⟨⟨key, row⟩, List.mem_filter.mpr ⟨AList.mem_lookup_iff.mp held, kept⟩, rfl⟩

/-- A table that is filled from entries with distinct keys holds exactly these. -/
theorem lookup_foldl_insert {entries : List (Key × Row)} (distinct : (entries.map Prod.fst).Nodup)
    (key : Key) (row : Row) :
    (entries.foldl (fun table entry => table.insert entry.1 entry.2) (∅ : Table Key Row)).lookup key =
      some row ↔ (key, row) ∈ entries := by
  induction entries using List.reverseRecOn with
  | nil => simp
  | append_singleton entries last ih =>
      rw [List.map_append, List.nodup_append] at distinct
      obtain ⟨front, -, apart⟩ := distinct
      rw [List.foldl_concat, List.mem_append, List.mem_singleton, ← ih front]
      by_cases own : key = last.1
      · have missing : ¬(key, row) ∈ entries := fun member =>
          apart _ (List.mem_map_of_mem member) _ (by simp) own
        rw [ih front, own, AList.lookup_insert, Option.some.injEq]
        constructor
        · rintro rfl
          exact Or.inr rfl
        · rintro (earlier | same)
          · exact absurd (own ▸ earlier) missing
          · exact congrArg Prod.snd same.symm
      · rw [AList.lookup_insert_ne own]
        constructor
        · exact Or.inl
        · rintro (earlier | rfl)
          · exact earlier
          · exact absurd rfl own

theorem mem_select (table : Table Key Row) (keep : Key → Row → Bool)
    (before : Key × Row → Key × Row → Bool) (key : Key) (row : Row) :
    (key, row) ∈ table.select keep before ↔ table.lookup key = some row ∧ keep key row = true := by
  rw [select, List.mem_insertionSort, List.mem_filter, List.mem_map]
  apply and_congr_left
  intro
  show _ ↔ row ∈ table.lookup key
  rw [AList.mem_lookup_iff]
  constructor
  · rintro ⟨entry, member, same⟩
    cases same
    exact member
  · intro member
    exact ⟨⟨key, row⟩, member, rfl⟩

omit [DecidableEq Key] in
/-- A selection has every key once. -/
theorem select_nodup (table : Table Key Row) (keep : Key → Row → Bool)
    (before : Key × Row → Key × Row → Bool) : ((table.select keep before).map Prod.fst).Nodup := by
  have sorted : (table.select keep before).Perm _ := List.perm_insertionSort _ _
  rw [(sorted.map Prod.fst).nodup_iff]
  apply List.Nodup.sublist (List.filter_sublist.map Prod.fst)
  rw [List.map_map]
  exact table.nodupKeys

/-- A list with distinct keys has one entry for the key of a member. -/
theorem filter_key {entries : List (Key × Row)} (distinct : (entries.map Prod.fst).Nodup)
    {key : Key} {row : Row} (member : (key, row) ∈ entries) :
    entries.filter (fun entry => entry.1 = key) = [(key, row)] := by
  obtain ⟨front, rest, rfl⟩ := List.append_of_mem member
  rw [List.map_append, List.map_cons, List.nodup_middle, List.nodup_cons, ← List.map_append] at distinct
  have apart : ∀ entry ∈ front ++ rest, decide (entry.1 = key) = false := by
    intro entry inside
    rw [decide_eq_false_iff_not]
    rintro rfl
    exact distinct.1 (List.mem_map.mpr ⟨entry, inside, rfl⟩)
  have left : front.filter (fun entry => entry.1 = key) = [] :=
    List.filter_eq_nil_iff.mpr fun entry inside => by
      simpa using apart entry (List.mem_append_left _ inside)
  have right : rest.filter (fun entry => entry.1 = key) = [] :=
    List.filter_eq_nil_iff.mpr fun entry inside => by
      simpa using apart entry (List.mem_append_right _ inside)
  simp [List.filter_append, left, right]

/-- The rows of a selection with a given key. -/
theorem select_filter (table : Table Key Row) (keep : Key → Row → Bool)
    (before : Key × Row → Key × Row → Bool) (key : Key) :
    (table.select keep before).filter (fun entry => entry.1 = key) =
      (((table.lookup key).filter (keep key)).map fun row => (key, row)).toList := by
  cases found : (table.lookup key).filter (keep key) with
  | some row =>
      rw [Option.filter_eq_some_iff] at found
      exact filter_key (table.select_nodup keep before) ((table.mem_select keep before key row).mpr found)
  | none =>
      apply List.filter_eq_nil_iff.mpr
      rintro ⟨other, row⟩ member same
      obtain rfl : other = key := by simpa using same
      have kept := (table.mem_select keep before other row).mp member
      rw [← Option.filter_eq_some_iff, found] at kept
      cases kept

section Order

variable {keep : Key → Row → Bool} {before : Key × Row → Key × Row → Bool}
  (total : ∀ first second, before first second = true ∨ before second first = true)
  (trans : ∀ first second third, before first second = true → before second third = true →
    before first third = true)
  (antisymm : ∀ first second, before first second = true → before second first = true →
    first.1 = second.1)

include total trans antisymm

/-- Two tables with the same selected rows give the same selection. -/
theorem select_congr {one two : Table Key Row}
    (same : ∀ key, (one.lookup key).filter (keep key) = (two.lookup key).filter (keep key)) :
    one.select keep before = two.select keep before := by
  have : Std.Total fun first second => before first second = true := ⟨total⟩
  have : IsTrans (Key × Row) fun first second => before first second = true := ⟨trans⟩
  have rows : ∀ entry, entry ∈ one.select keep before ↔ entry ∈ two.select keep before := by
    rintro ⟨key, row⟩
    rw [mem_select, mem_select, ← Option.filter_eq_some_iff, same, Option.filter_eq_some_iff]
  have perm := (List.perm_ext_iff_of_nodup (one.select_nodup keep before).of_map
    (two.select_nodup keep before).of_map).mpr rows
  apply List.Perm.eq_of_pairwise _ (List.pairwise_insertionSort _ _) (List.pairwise_insertionSort _ _)
    perm
  rintro ⟨key, row⟩ ⟨other, held⟩ first second below above
  obtain rfl : key = other := antisymm _ _ below above
  have one := (mem_select _ _ _ _ _).mp ((rows _).mp first)
  have two := (mem_select _ _ _ _ _).mp second
  rw [one.1] at two
  rw [Option.some.inj two.1]

end Order

end Table
