import SynthHiresBridge.Data.JsonOrder
import Mathlib.Data.List.Nodup

namespace Json

namespace Value

/-- A signed integer is written with its sign. -/
def ofInt : Int → Value
  | .ofNat value => .number (.posInt value)
  | .negSucc value => .number (.negInt (value + 1))

/-- A signed integer whose magnitude stays below half of its size. -/
def asInt (half : Nat) : Value → Option Int
  | .number (.posInt value) => if value < half then some value else none
  | .number (.negInt magnitude) => if magnitude ≤ half then some (-magnitude) else none
  | _ => none

mutual

/-- The levels of arrays and objects in a value. -/
def depth : Value → Nat
  | .null | .bool _ | .number _ | .string _ => 0
  | .array items => itemsDepth items + 1
  | .object entries => entriesDepth entries + 1

def itemsDepth : List Value → Nat
  | [] => 0
  | item :: rest => max item.depth (itemsDepth rest)

def entriesDepth : List (String × Value) → Nat
  | [] => 0
  | (_, value) :: rest => max value.depth (entriesDepth rest)

end

/-- A list of texts is one level. -/
theorem itemsDepth_strings (texts : List String) : itemsDepth (texts.map Value.string) = 0 := by
  induction texts with
  | nil => rfl
  | cons text rest ih => rw [List.map_cons, itemsDepth, ih, depth, Nat.max_self]

end Value

/-- A record is written without the fields that are left out. -/
def written (fields : List (String × Option Value)) : List (String × Value) :=
  fields.filterMap fun field => field.2.map fun value => (field.1, value)

theorem mem_written {fields : List (String × Option Value)} {name : String} {value : Value} :
    (name, value) ∈ written fields ↔ (name, some value) ∈ fields := by
  rw [written, List.mem_filterMap]
  constructor
  · rintro ⟨⟨other, held⟩, member, same⟩
    obtain ⟨inner, rfl, pair⟩ := Option.map_eq_some_iff.mp same
    obtain ⟨rfl, rfl⟩ := Prod.mk.inj pair
    exact member
  · intro member
    exact ⟨_, member, rfl⟩

theorem names_written (fields : List (String × Option Value)) :
    ((written fields).map Prod.fst).Sublist (fields.map Prod.fst) := by
  induction fields with
  | nil => exact .slnil
  | cons field rest ih =>
      rcases field with ⟨name, value⟩
      cases value with
      | none => exact ih.cons name
      | some value => exact ih.cons_cons name

theorem nodup_written {fields : List (String × Option Value)}
    (distinct : (fields.map Prod.fst).Nodup) : ((written fields).map Prod.fst).Nodup :=
  distinct.sublist (names_written fields)

/-- The levels of a record are those of the fields that it is written with. -/
theorem depth_written {fields : List (String × Option Value)} {levels : Nat} :
    Value.entriesDepth (written fields) ≤ levels ↔
      ∀ field ∈ fields, ∀ value ∈ field.2, value.depth ≤ levels := by
  induction fields with
  | nil => simp [written, Value.entriesDepth]
  | cons field rest ih =>
      rcases field with ⟨name, value⟩
      rw [List.forall_mem_cons, ← ih]
      cases value with
      | none => simp [written]
      | some value =>
          have kept : written ((name, some value) :: rest) = (name, value) :: written rest := rfl
          rw [kept, Value.entriesDepth, Nat.max_le]
          simp

/-- Each field of a record is found under its name, and it is missing where it was left out. -/
theorem lookup_written {fields : List (String × Option Value)}
    (distinct : (fields.map Prod.fst).Nodup) (name : String) :
    (written fields).lookup name = (fields.lookup name).join := by
  induction fields with
  | nil => rfl
  | cons field rest ih =>
      rcases field with ⟨own, value⟩
      obtain ⟨fresh, later⟩ := List.nodup_cons.mp distinct
      by_cases same : name = own
      · subst same
        cases value with
        | some value => simp [written]
        | none =>
            have missing : (written rest).lookup name = none := by
              rw [List.lookup_eq_none_iff]
              intro entry member
              rw [bne_iff_ne]
              rintro rfl
              exact fresh ((names_written rest).subset (List.mem_map_of_mem member))
            have skipped : written ((name, none) :: rest) = written rest := rfl
            rw [skipped, missing]
            simp
      · have other : (name == own) = false := by simpa using same
        rw [List.lookup_cons, other, ← ih later]
        cases value with
        | none => rfl
        | some value =>
            have kept : written ((own, some value) :: rest) = (own, value) :: written rest := rfl
            rw [kept, List.lookup_cons, other]

/-- A written record has its fields when it is read by their names. -/
theorem fieldsOnce_written {fields : List (String × Option Value)}
    (distinct : (fields.map Prod.fst).Nodup) (names : List String) :
    (Value.object (written fields)).fieldsOnce names =
      some (names.map fun name => (fields.lookup name).join) := by
  rw [Value.fieldsOnce, if_pos ((nodup_written distinct).filter _), Value.fields]
  simp only [lookup_written distinct]

/-- The tag in front of a record hides none of its fields. -/
theorem properties_written {fields : List (String × Option Value)} {tag : String}
    {names : List String} (distinct : (fields.map Prod.fst).Nodup) (untagged : tag ∉ names)
    (held : Value) :
    (names.map fun name => ((tag, held) :: written fields).lookup name) =
      names.map fun name => (fields.lookup name).join := by
  apply List.map_congr_left
  intro name member
  have other : (name == tag) = false := by
    rw [beq_eq_false_iff_ne]
    rintro rfl
    exact untagged member
  rw [List.lookup_cons, other, lookup_written distinct]

/-- An object with its tag in front is a variant of a tagged enumeration. -/
theorem tagged_written {fields : List (String × Option Value)} {tag : String} (name : String)
    (untagged : tag ∉ fields.map Prod.fst) :
    (Value.object ((tag, .string name) :: written fields)).tagged tag =
      some (name, .object (written fields)) := by
  have kept : (written fields).filter (fun entry => entry.1 ≠ tag) = written fields := by
    apply List.filter_eq_self.mpr
    intro entry member
    have inside := (names_written fields).subset (List.mem_map_of_mem (f := Prod.fst) member)
    rw [decide_eq_true_iff]
    rintro rfl
    exact untagged inside
  rw [Value.tagged, List.lookup_cons, beq_self_eq_true, List.filter_cons_of_neg (by simp), kept]
  rfl

end Json
