import Mathlib.Data.List.Nodup
import Mathlib.Data.List.Perm.Basic

namespace Transition

/-- Every ticket that was drawn stands in exactly one place. -/
def Accounted (drawn : Nat) (places : List Nat) : Prop :=
  places.Perm (List.range drawn)

namespace Accounted

variable {drawn ticket : Nat} {places first second : List Nat}

theorem nothing : Accounted 0 [] := List.Perm.nil

/-- Tickets may change their places. -/
theorem moved (accounted : Accounted drawn first) (same : second.Perm first) :
    Accounted drawn second :=
  same.trans accounted

/-- A new ticket is put in one place. -/
theorem draw (accounted : Accounted drawn places) : Accounted (drawn + 1) (drawn :: places) := by
  rw [Accounted, List.range_succ]
  exact (accounted.cons drawn).trans (List.perm_append_singleton drawn (List.range drawn)).symm

theorem mem_iff (accounted : Accounted drawn places) : ticket ∈ places ↔ ticket < drawn := by
  rw [List.Perm.mem_iff accounted, List.mem_range]

theorem nodup (accounted : Accounted drawn places) : places.Nodup :=
  (List.Perm.nodup_iff accounted).mpr List.nodup_range

/-- A ticket stands in the first part or in the second one, and there once. -/
theorem split (accounted : Accounted drawn (first ++ second)) (known : ticket < drawn) :
    (ticket ∈ first ∧ second.count ticket = 0) ∨ (ticket ∉ first ∧ second.count ticket = 1) := by
  obtain ⟨-, once, apart⟩ := List.nodup_append.mp accounted.nodup
  rcases List.mem_append.mp (accounted.mem_iff.mpr known) with here | there
  · exact .inl ⟨here, List.count_eq_zero.mpr fun inside => apart _ here _ inside rfl⟩
  · exact .inr ⟨fun inside => apart _ inside _ there rfl, List.count_eq_one_of_mem once there⟩

end Accounted

/-- A member of a list goes to the front of another place. -/
theorem take_perm {Item : Type*} {items : List Item} {place : Nat} {item : Item}
    (held : items[place]? = some item) : (item :: items.eraseIdx place).Perm items := by
  obtain ⟨inside, rfl⟩ := List.getElem?_eq_some_iff.mp held
  exact List.getElem_cons_eraseIdx_perm inside

end Transition
