import SynthHiresBridge.Data.JsonRecord

namespace Json

/-- A reader succeeds, and what it read is as meant. -/
def Reads {α : Type} (read : Option α) (Meant : α → Prop) : Prop :=
  ∃ value, read = some value ∧ Meant value

section Reads

variable {α β : Type} {Meant : α → Prop} {side : Prop}

@[simp] theorem reads_some {value : α} : Reads (some value) Meant ↔ Meant value := by
  constructor
  · rintro ⟨_, same, meant⟩
    exact Option.some.inj same ▸ meant
  · exact fun meant => ⟨value, rfl, meant⟩

@[simp] theorem not_reads_none : ¬Reads none Meant := nofun

@[simp] theorem reads_bind {read : Option β} {next : β → Option α} :
    Reads (read.bind next) Meant ↔ Reads read fun value => Reads (next value) Meant := by
  constructor
  · rintro ⟨last, found, meant⟩
    obtain ⟨first, own, rest⟩ := Option.bind_eq_some_iff.mp found
    exact ⟨first, own, last, rest, meant⟩
  · rintro ⟨first, own, last, rest, meant⟩
    exact ⟨last, Option.bind_eq_some_iff.mpr ⟨first, own, rest⟩, meant⟩

theorem reads_map {read : Option β} {build : β → α} :
    Reads (read.map build) Meant ↔ Reads read fun value => Meant (build value) := by
  constructor
  · rintro ⟨last, found, meant⟩
    obtain ⟨first, own, rfl⟩ := Option.map_eq_some_iff.mp found
    exact ⟨first, own, meant⟩
  · rintro ⟨first, own, meant⟩
    exact ⟨build first, Option.map_eq_some_iff.mpr ⟨first, own, rfl⟩, meant⟩

/-- What does not depend on the value that is read is no part of the reading. -/
@[simp] theorem reads_and_left {read : Option α} :
    (Reads read fun value => side ∧ Meant value) ↔ side ∧ Reads read Meant := by
  constructor
  · rintro ⟨value, found, holds, meant⟩
    exact ⟨holds, value, found, meant⟩
  · rintro ⟨holds, value, found, meant⟩
    exact ⟨value, found, holds, meant⟩

@[simp] theorem reads_and_right {read : Option α} :
    (Reads read fun value => Meant value ∧ side) ↔ Reads read Meant ∧ side := by
  simp only [and_comm (b := side), reads_and_left]

end Reads

theorem asBelow_ofInt (bound : Nat) (value : Int) :
    (Value.ofInt value).asBelow bound =
      if 0 ≤ value ∧ value < bound then some value.toNat else none := by
  cases value with
  | ofNat value =>
      have read : (Value.ofInt (value : Int)).asBelow bound =
        if value < bound then some value else none := rfl
      simp only [read, Int.ofNat_eq_natCast, Int.natCast_nonneg, true_and, Int.ofNat_lt,
        Int.toNat_natCast]
  | negSucc value =>
      rw [if_neg (by omega)]
      rfl

/-- An integer is read as a natural number where it is not negative and below the bound. -/
theorem reads_asBelow (bound : Nat) (value : Int) :
    (Reads ((Value.ofInt value).asBelow bound) fun held => value = held) ↔
      0 ≤ value ∧ value < bound := by
  rw [asBelow_ofInt]
  split
  · rename_i inside
    rw [reads_some, Int.toNat_of_nonneg inside.1]
    exact iff_of_true rfl inside
  · rename_i outside
    exact iff_of_false not_reads_none outside

theorem asInt_ofNat (half value : Nat) :
    (Value.ofNat value).asInt half = if value < half then some (value : Int) else none := rfl

@[simp] theorem depth_string (text : String) : (Value.string text).depth = 0 := rfl

@[simp] theorem depth_bool (flag : Bool) : (Value.bool flag).depth = 0 := rfl

@[simp] theorem depth_ofInt (value : Int) : (Value.ofInt value).depth = 0 := by
  cases value <;> rfl

theorem mapM_asStr (texts : List String) :
    (texts.map Value.string).mapM Value.asStr = some texts := by
  induction texts with
  | nil => rfl
  | cons text rest ih => simp [ih, Value.asStr]

@[simp] theorem listOf_strings (texts : List String) :
    Value.listOf Value.asStr (.array (texts.map Value.string)) = some texts :=
  mapM_asStr texts

section Fields

variable {α : Type} (read : Value → Option α)

@[simp] theorem asStr_string (text : String) : Value.asStr (.string text) = some text := rfl

@[simp] theorem asBool_bool (flag : Bool) : Value.asBool (.bool flag) = some flag := rfl

@[simp] theorem defaulted_none (default : α) :
    Value.defaulted default read none = some default := rfl

@[simp] theorem defaulted_some (default : α) (value : Value) :
    Value.defaulted default read (some value) = read value := rfl

@[simp] theorem optional_none : Value.optional read none = some none := rfl

theorem optional_object {entries : List (String × Value)} :
    Value.optional read (some (.object entries)) = (read (.object entries)).map some := rfl

end Fields

end Json
