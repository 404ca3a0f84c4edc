import Mathlib.Data.List.Infix

namespace Clip

variable {α : Type*} (size : α → Nat)

/-- Two places of one list are in some order. -/
theorem place_cases {before after first rest : List α} {item other : α}
    (same : before ++ item :: after = first ++ other :: rest) :
    (∃ more, before = first ++ other :: more) ∨ (first = before ∧ other = item ∧ rest = after) ∨
      ∃ more, first = before ++ item :: more := by
  rcases List.append_eq_append_iff.mp same with ⟨gap, made, left⟩ | ⟨gap, made, left⟩
  · cases gap with
    | nil =>
        obtain ⟨rfl, rfl⟩ := List.cons.inj left
        exact .inr (.inl ⟨by rw [made, List.append_nil], rfl, rfl⟩)
    | cons head more =>
        obtain ⟨rfl, -⟩ := List.cons.inj left
        exact .inr (.inr ⟨more, made⟩)
  · cases gap with
    | nil =>
        obtain ⟨rfl, rfl⟩ := List.cons.inj left
        exact .inr (.inl ⟨by rw [made, List.append_nil], rfl, rfl⟩)
    | cons head more =>
        obtain ⟨rfl, -⟩ := List.cons.inj left
        exact .inl ⟨more, made⟩

def weight : List α → Nat
  | [] => 0
  | item :: rest => size item + weight rest

@[simp] theorem weight_nil : weight size [] = 0 := rfl

theorem weight_cons (item : α) (rest : List α) :
    weight size (item :: rest) = size item + weight size rest := rfl

theorem weight_append (front rest : List α) :
    weight size (front ++ rest) = weight size front + weight size rest := by
  induction front with
  | nil => rw [List.nil_append, weight_nil, Nat.zero_add]
  | cons item front ih => rw [List.cons_append, weight_cons, ih, weight_cons, Nat.add_assoc]

theorem weight_replicate (count : Nat) (item : α) :
    weight size (List.replicate count item) = count * size item := by
  induction count with
  | zero => rw [Nat.zero_mul]; rfl
  | succ count ih => rw [List.replicate_succ, weight_cons, ih, Nat.succ_mul, Nat.add_comm]

theorem weight_singleton (item : α) : weight size [item] = size item := Nat.add_zero _

theorem weight_add (other : α → Nat) (items : List α) :
    weight (fun item => size item + other item) items = weight size items + weight other items := by
  induction items with
  | nil => rfl
  | cons item rest ih =>
      rw [weight_cons, weight_cons, weight_cons, ih]
      omega

theorem weight_eq_zero_iff {items : List α} :
    weight size items = 0 ↔ ∀ item ∈ items, size item = 0 := by
  induction items with
  | nil => exact iff_of_true rfl nofun
  | cons item rest ih => rw [weight_cons, Nat.add_eq_zero_iff, ih, List.forall_mem_cons]

theorem weight_congr {other : α → Nat} {items : List α}
    (same : ∀ item ∈ items, size item = other item) : weight size items = weight other items := by
  induction items with
  | nil => rfl
  | cons item rest ih =>
      obtain ⟨here, later⟩ := List.forall_mem_cons.mp same
      rw [weight_cons, weight_cons, here, ih later]

variable {size}

theorem weight_le {short long : List α} (inside : short <+: long) :
    weight size short ≤ weight size long := by
  obtain ⟨rest, rfl⟩ := inside
  rw [weight_append]
  exact Nat.le_add_right _ _

/-- The longest front of a list that fits into some room begins with every other one that fits. -/
structure Longest (size : α → Nat) (room : Nat) (items kept : List α) : Prop where
  front : kept <+: items
  fits : weight size kept ≤ room
  longest : ∀ other, other <+: items → weight size other ≤ room → other <+: kept

/-- Every item needs some room. -/
def Solid (size : α → Nat) : Prop := ∀ item, 1 ≤ size item

theorem Solid.length_le (solid : Solid size) (items : List α) : items.length ≤ weight size items := by
  induction items with
  | nil => exact Nat.zero_le _
  | cons item rest ih =>
      have here := solid item
      rw [List.length_cons, weight_cons]
      omega

/-- As many items as there is room fill it, when all of them need that much. -/
theorem Solid.take_fills (solid : Solid size) {room : Nat} {items : List α}
    (enough : room ≤ weight size items) : room ≤ weight size (items.take room) := by
  have many := solid.length_le (items.take room)
  rw [List.length_take] at many
  rcases Nat.le_total room items.length with more | few
  · rwa [Nat.min_eq_left more] at many
  · rwa [List.take_of_length_le few]

/-- A front that fills the room is the longest one. -/
theorem Solid.longest (solid : Solid size) {room : Nat} {items kept : List α}
    (front : kept <+: items) (fills : weight size kept = room) : Longest size room items kept := by
  refine ⟨front, Nat.le_of_eq fills, fun other also small => ?_⟩
  rcases List.prefix_or_prefix_of_prefix also front with shorter | ⟨rest, rfl⟩
  · exact shorter
  · have none : rest.length = 0 := by
      have heavy := solid.length_le rest
      rw [weight_append] at small
      omega
    rw [List.length_eq_zero_iff.mp none, List.append_nil]

theorem Longest.of_fits {room : Nat} {items : List α} (small : weight size items ≤ room) :
    Longest size room items items :=
  ⟨List.prefix_refl items, small, fun _ inside _ => inside⟩

/-- The longest front that fits is unique. -/
theorem Longest.unique {room : Nat} {items first second : List α}
    (one : Longest size room items first) (other : Longest size room items second) :
    first = second := by
  have shorter := other.longest first one.front one.fits
  exact shorter.eq_of_length_le (one.longest second other.front other.fits).length_le

theorem solid_utf8Size : Solid Char.utf8Size := Char.utf8Size_pos

/-- `str::len` counts the bytes of the characters. -/
theorem utf8ByteSize_eq (text : String) :
    text.utf8ByteSize = weight Char.utf8Size text.toList := by
  have all : ∀ chars, (String.ofList chars).utf8ByteSize = weight Char.utf8Size chars := by
    intro chars
    induction chars with
    | nil => rfl
    | cons char rest ih =>
        rw [← List.singleton_append, String.ofList_append, String.utf8ByteSize_append, ih,
          weight_append, weight_cons, weight_nil, Nat.add_zero]
        exact congrArg (· + _) String.utf8ByteSize_singleton
  rw [← all, String.ofList_toList]

end Clip
