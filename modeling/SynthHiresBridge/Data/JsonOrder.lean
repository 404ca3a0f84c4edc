import Mathlib.Data.String.Basic
import SynthHiresBridge.Data.Json

namespace Json

/-- An entry goes to its place in ascending keys, and a later entry with its key takes precedence. -/
def insertEntry (key : String) (value : Value) : List (String × Value) → List (String × Value)
  | [] => [(key, value)]
  | (other, held) :: rest =>
      if key < other then (key, value) :: (other, held) :: rest
      else if key = other then (other, held) :: rest
      else (other, held) :: insertEntry key value rest

namespace Value

mutual

/-- A value whose objects are kept in trees has its keys in ascending order. -/
def sorted : Value → Value
  | .null => .null
  | .bool value => .bool value
  | .number value => .number value
  | .string text => .string text
  | .array items => .array (sortedItems items)
  | .object entries => .object (sortedEntries entries)

def sortedItems : List Value → List Value
  | [] => []
  | item :: rest => item.sorted :: sortedItems rest

def sortedEntries : List (String × Value) → List (String × Value)
  | [] => []
  | (key, value) :: rest => insertEntry key value.sorted (sortedEntries rest)

end

/-- Entries in ascending order whose values are in order stay as they are. -/
theorem sortedEntries_of_ascending {entries : List (String × Value)}
    (ascending : entries.Pairwise fun first second => first.1 < second.1)
    (inside : ∀ entry ∈ entries, entry.2.sorted = entry.2) : sortedEntries entries = entries := by
  induction entries with
  | nil => rfl
  | cons entry rest ih =>
      obtain ⟨own, others⟩ := List.forall_mem_cons.mp inside
      obtain ⟨first, later⟩ := List.pairwise_cons.mp ascending
      rw [sortedEntries, ih later others, own]
      cases rest with
      | nil => rfl
      | cons next more =>
          rw [insertEntry, if_pos (first next List.mem_cons_self)]

theorem mem_insertEntry {key : String} {value : Value} {entries : List (String × Value)}
    {entry : String × Value} (member : entry ∈ insertEntry key value entries) :
    entry = (key, value) ∨ entry ∈ entries := by
  induction entries with
  | nil => exact .inl (List.mem_singleton.mp member)
  | cons first rest ih =>
      rcases first with ⟨other, held⟩
      rw [insertEntry] at member
      split at member
      · exact List.mem_cons.mp member
      · split at member
        · exact .inr member
        · rcases List.mem_cons.mp member with rfl | later
          · exact .inr List.mem_cons_self
          · exact (ih later).imp_right (List.mem_cons_of_mem _)

theorem ascending_insertEntry (key : String) (value : Value) {entries : List (String × Value)}
    (ascending : entries.Pairwise fun first second => first.1 < second.1) :
    (insertEntry key value entries).Pairwise fun first second => first.1 < second.1 := by
  induction entries with
  | nil => exact List.pairwise_singleton _ _
  | cons first rest ih =>
      rcases first with ⟨other, held⟩
      obtain ⟨below, later⟩ := List.pairwise_cons.mp ascending
      rw [insertEntry]
      split
      · rename_i less
        refine List.pairwise_cons.mpr ⟨?_, ascending⟩
        intro entry member
        rcases List.mem_cons.mp member with rfl | inside
        · exact less
        · exact less.trans (below entry inside)
      · split
        · exact ascending
        · rename_i notLess different
          refine List.pairwise_cons.mpr ⟨?_, ih later⟩
          intro entry member
          rcases mem_insertEntry member with rfl | inside
          · exact lt_of_le_of_ne (not_lt.mp notLess) fun same => different same.symm
          · exact below entry inside

theorem ascending_sortedEntries (entries : List (String × Value)) :
    (sortedEntries entries).Pairwise fun first second => first.1 < second.1 := by
  induction entries with
  | nil => exact List.Pairwise.nil
  | cons entry rest ih => exact ascending_insertEntry _ _ ih

mutual

/-- A value that is in order stays as it is. -/
theorem sorted_sorted : (value : Value) → value.sorted.sorted = value.sorted
  | .null | .bool _ | .number _ | .string _ => rfl
  | .array items => congrArg Value.array (sortedItems_sortedItems items)
  | .object entries => congrArg Value.object
      (sortedEntries_of_ascending (ascending_sortedEntries entries) (sorted_of_mem entries))

theorem sortedItems_sortedItems : (items : List Value) →
    sortedItems (sortedItems items) = sortedItems items
  | [] => rfl
  | item :: rest => by
      rw [sortedItems, sortedItems, sorted_sorted item, sortedItems_sortedItems rest]

theorem sorted_of_mem : (entries : List (String × Value)) →
    ∀ entry ∈ sortedEntries entries, entry.2.sorted = entry.2
  | [], _, member => absurd member List.not_mem_nil
  | (_, value) :: rest, entry, member => by
      rcases mem_insertEntry member with rfl | inside
      · exact sorted_sorted value
      · exact sorted_of_mem rest entry inside

end

/-- `Map::remove` drops the entry of a key. -/
def remove (value : Value) (key : String) : Value :=
  match value with
  | .object entries => .object (entries.filter fun entry => entry.1 ≠ key)
  | value => value

/-- A structure that is read from a text takes each of its fields at most once. -/
def fieldsOnce (names : List String) (value : Value) : Option (List (Option Value)) :=
  match value with
  | .object entries =>
      if ((entries.map Prod.fst).filter fun key => names.contains key).Nodup then
        value.fields names
      else none
  | value => value.fields names

end Value

end Json
