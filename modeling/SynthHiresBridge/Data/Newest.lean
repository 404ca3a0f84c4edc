import Mathlib.Data.List.Sort
import Mathlib.Data.Set.Card

namespace Newest

variable {Item : Type} {stamp : Item → Int}

/-- A list shows a set if it has each of its items once, with the greatest stamps first. -/
structure Shows (stamp : Item → Int) (items : Set Item) (list : List Item) : Prop where
  distinct : list.Nodup
  members : ∀ item, item ∈ list ↔ item ∈ items
  newest : list.Pairwise fun first second => stamp second ≤ stamp first

/-- The first items that are found are the first ones that are wanted: enough newer items come
before one that is not wanted, and enough items are as new as one that is missed. -/
structure Covers (stamp : Item → Int) (found wanted : Set Item) (limit : Nat) : Prop where
  extra : ∀ item ∈ found, item ∉ wanted → limit ≤ {other ∈ found | stamp item < stamp other}.ncard
  missed : ∀ item ∈ wanted, item ∉ found → limit ≤ {other ∈ found | stamp item ≤ stamp other}.ncard

/-- The items of a list can be put in order. -/
theorem exists_shows (stamp : Item → Int) {list : List Item} (distinct : list.Nodup) :
    ∃ other, Shows stamp {item | item ∈ list} other := by
  let newer (first second : Item) : Prop := stamp second ≤ stamp first
  have : DecidableRel newer := fun first second => inferInstanceAs (Decidable (_ ≤ _))
  have : Std.Total newer := ⟨fun first second => le_total (stamp second) (stamp first)⟩
  have : IsTrans Item newer := ⟨fun first second third one two => le_trans two one⟩
  refine ⟨list.insertionSort newer, ?_, ?_, ?_⟩
  · exact (List.perm_insertionSort newer list).nodup_iff.mpr distinct
  · exact fun item => List.mem_insertionSort newer
  · exact List.pairwise_insertionSort newer list

theorem exists_shows_of_finite (stamp : Item → Int) {items : Set Item} (finite : items.Finite) :
    ∃ list, Shows stamp items list := by
  obtain ⟨list, shows⟩ := exists_shows stamp finite.toFinset.nodup_toList
  refine ⟨list, shows.distinct, ?_, shows.newest⟩
  intro item
  rw [shows.members]
  exact Finset.mem_toList.trans finite.mem_toFinset

namespace Shows

variable {items : Set Item} {list : List Item}

theorem nodup_perm (shows : Shows stamp items list) {other : List Item} (distinct : other.Nodup)
    (same : ∀ item, item ∈ other ↔ item ∈ items) : other.Perm list :=
  (List.perm_ext_iff_of_nodup distinct shows.distinct).mpr fun item =>
    (same item).trans (shows.members item).symm

theorem ncard (shows : Shows stamp items list) : items.ncard = list.length := by
  classical
  rw [← List.toFinset_card_of_nodup shows.distinct, ← Set.ncard_coe_finset]
  congr 1
  ext item
  rw [List.coe_toFinset]
  exact (shows.members item).symm

/-- The items of a condition are counted in the list. -/
theorem ncard_eq (shows : Shows stamp items list) (holds : Item → Prop) [DecidablePred holds] :
    {item ∈ items | holds item}.ncard = (list.filter fun item => holds item).length := by
  have part : Shows stamp {item ∈ items | holds item} (list.filter fun item => holds item) := by
    refine ⟨shows.distinct.filter _, ?_, shows.newest.filter _⟩
    intro item
    rw [List.mem_filter, decide_eq_true_iff, shows.members]
    rfl
  exact part.ncard

/-- Items that are newer than one of the first ones come before it. -/
theorem ncard_lt (shows : Shows stamp items list) {limit : Nat} {item : Item}
    (early : item ∈ list.take limit) {holds : Item → Prop} [DecidablePred holds]
    (newer : ∀ other, holds other → stamp item < stamp other) :
    {other ∈ items | holds other}.ncard < limit := by
  obtain ⟨front, back, cut⟩ := List.append_of_mem early
  have whole : list = front ++ item :: (back ++ list.drop limit) := by
    rw [← List.cons_append, ← List.append_assoc, ← cut, List.take_append_drop]
  have order := shows.newest
  rw [whole, List.pairwise_append, List.pairwise_cons] at order
  have late : (item :: (back ++ list.drop limit)).filter (fun other => holds other) = [] := by
    apply List.filter_eq_nil_iff.mpr
    intro other member held
    have above := newer other (of_decide_eq_true held)
    rcases List.mem_cons.mp member with rfl | later
    · exact absurd above (lt_irrefl _)
    · exact absurd above (not_lt.mpr (order.2.1.1 other later))
  have short : front.length < limit := by
    have bound := List.length_take_le limit list
    rw [cut, List.length_append, List.length_cons] at bound
    omega
  rw [shows.ncard_eq]
  have counted : list.filter (fun other => holds other) = front.filter fun other => holds other := by
    rw [whole, List.filter_append, late, List.append_nil]
  rw [counted]
  exact lt_of_le_of_lt (List.length_filter_le _ front) short

theorem mem_drop (shows : Shows stamp items list) {limit : Nat} {item : Item} (member : item ∈ items)
    (late : item ∉ list.take limit) : item ∈ list.drop limit := by
  have listed := (shows.members item).mpr member
  rw [← List.take_append_drop limit list, List.mem_append] at listed
  exact listed.resolve_left late

/-- An item that is not one of the first ones is not newer than these. -/
theorem le_first (shows : Shows stamp items list) {limit : Nat} {item : Item} (member : item ∈ items)
    (late : item ∉ list.take limit) {first : Item} (early : first ∈ list.take limit) :
    stamp item ≤ stamp first := by
  have order := shows.newest
  rw [← List.take_append_drop limit list, List.pairwise_append] at order
  exact order.2.2 first early item (shows.mem_drop member late)

/-- Some item is not one of the first ones only if there are as many of these as can be. -/
theorem length_first (shows : Shows stamp items list) {limit : Nat} {item : Item}
    (member : item ∈ items) (late : item ∉ list.take limit) : (list.take limit).length = limit := by
  have some := List.length_pos_of_mem (shows.mem_drop member late)
  rw [List.length_drop] at some
  rw [List.length_take]
  omega

/-- Another set that has these first items has enough of them that are as new. -/
theorem le_ncard (shows : Shows stamp items list) {limit : Nat} {item : Item} (member : item ∈ items)
    (late : item ∉ list.take limit) {other : Set Item} {order : List Item}
    (shown : Shows stamp other order) (inside : (list.take limit).Sublist order) :
    limit ≤ {earlier ∈ other | stamp item ≤ stamp earlier}.ncard := by
  have kept : (list.take limit).filter (fun earlier => stamp item ≤ stamp earlier) = list.take limit :=
    List.filter_eq_self.mpr fun earlier early => decide_eq_true (shows.le_first member late early)
  have part := inside.filter fun earlier => decide (stamp item ≤ stamp earlier)
  rw [kept] at part
  rw [shown.ncard_eq]
  calc limit = (list.take limit).length := (shows.length_first member late).symm
    _ ≤ _ := part.length_le

/-- An item can come right after the newer ones. -/
theorem exists_early (shows : Shows stamp items list) {item : Item} (member : item ∈ items)
    {limit : Nat} (room : {other ∈ items | stamp item < stamp other}.ncard < limit) :
    ∃ other, Shows stamp items other ∧ item ∈ other.take limit := by
  classical
  let newer (other : Item) : Bool := decide (stamp item < stamp other)
  obtain ⟨front, first⟩ := exists_shows stamp (shows.distinct.filter newer)
  obtain ⟨back, last⟩ := exists_shows stamp
    ((shows.distinct.filter fun other => !newer other).erase item)
  have split : ∀ other, other ∈ front ↔ other ∈ items ∧ stamp item < stamp other := by
    intro other
    rw [first.members, ← shows.members]
    exact List.mem_filter.trans (and_congr_right fun _ => decide_eq_true_iff)
  have rest : ∀ other, other ∈ back ↔ other ≠ item ∧ other ∈ items ∧ ¬ stamp item < stamp other := by
    intro other
    rw [last.members, ← shows.members]
    show other ∈ List.erase _ item ↔ _
    rw [(shows.distinct.filter _).mem_erase_iff, List.mem_filter, Bool.not_eq_true',
      decide_eq_false_iff_not]
  refine ⟨front ++ item :: back, ⟨?_, ?_, ?_⟩, ?_⟩
  · refine List.nodup_append.mpr ⟨first.distinct, List.nodup_cons.mpr ⟨?_, last.distinct⟩, ?_⟩
    · exact fun inside => ((rest item).mp inside).1 rfl
    · rintro one before two after rfl
      have above := ((split one).mp before).2
      rcases List.mem_cons.mp after with rfl | later
      · exact lt_irrefl _ above
      · exact ((rest one).mp later).2.2 above
  · intro other
    rw [List.mem_append, List.mem_cons, split, rest]
    by_cases same : other = item
    · subst same
      simp [member]
    · by_cases above : stamp item < stamp other <;> simp [same, above]
  · refine List.pairwise_append.mpr ⟨first.newest, List.pairwise_cons.mpr ⟨?_, last.newest⟩, ?_⟩
    · exact fun other inside => not_lt.mp ((rest other).mp inside).2.2
    · intro before listed after inside
      have above := ((split before).mp listed).2
      rcases List.mem_cons.mp inside with rfl | later
      · exact above.le
      · exact (not_lt.mp ((rest after).mp later).2.2).trans above.le
  · have short : front.length < limit := by
      have counted := shows.ncard_eq fun other => stamp item < stamp other
      rw [← (first.nodup_perm (shows.distinct.filter newer) fun _ => Iff.rfl).length_eq, ← counted]
      exact room
    obtain ⟨spare, size⟩ := Nat.exists_eq_add_of_lt short
    rw [List.take_append, size, Nat.add_assoc, Nat.add_sub_cancel_left, List.take_succ_cons]
    exact List.mem_append_right _ List.mem_cons_self

end Shows

namespace Covers

variable {found wanted : Set Item} {limit : Nat} {list : List Item} {item : Item}

theorem wanted_of_first (covers : Covers stamp found wanted limit) (shows : Shows stamp found list)
    (early : item ∈ list.take limit) : item ∈ wanted := by
  by_contra strange
  have many := covers.extra item ((shows.members item).mp (List.mem_of_mem_take early)) strange
  exact absurd many (not_le.mpr (shows.ncard_lt early fun _ above => above))

/-- A wanted item that is not one of the first ones is not newer than these. -/
theorem le_first (covers : Covers stamp found wanted limit) (shows : Shows stamp found list)
    (member : item ∈ wanted) (late : item ∉ list.take limit) {first : Item}
    (early : first ∈ list.take limit) : stamp item ≤ stamp first := by
  by_cases inside : item ∈ found
  · exact shows.le_first inside late early
  · by_contra above
    have many := covers.missed item member inside
    exact absurd many (not_le.mpr (shows.ncard_lt early fun _ => (not_le.mp above).trans_le))

theorem length_first (covers : Covers stamp found wanted limit) (shows : Shows stamp found list)
    (member : item ∈ wanted) (late : item ∉ list.take limit) : (list.take limit).length = limit := by
  by_cases inside : item ∈ found
  · exact shows.length_first inside late
  · have many := covers.missed item member inside
    rw [shows.ncard_eq] at many
    rw [List.length_take]
    exact Nat.min_eq_left (many.trans (List.length_filter_le _ list))

/-- The first items that are found are completed by the rest of the wanted ones. -/
theorem exists_shows (covers : Covers stamp found wanted limit) {other : List Item}
    (asked : Shows stamp wanted other) (shows : Shows stamp found list) :
    ∃ other, Shows stamp wanted other ∧ list.take limit = other.take limit := by
  classical
  obtain ⟨rest, last⟩ := Newest.exists_shows stamp
    (asked.distinct.filter fun item => item ∉ list.take limit)
  have split : ∀ item, item ∈ rest ↔ item ∈ wanted ∧ item ∉ list.take limit := by
    intro item
    rw [last.members, ← asked.members]
    exact List.mem_filter.trans (and_congr_right fun _ => decide_eq_true_iff)
  refine ⟨list.take limit ++ rest, ⟨?_, ?_, ?_⟩, ?_⟩
  · refine List.nodup_append.mpr ⟨shows.distinct.sublist (List.take_sublist limit list),
      last.distinct, ?_⟩
    rintro one before two after rfl
    exact ((split one).mp after).2 before
  · intro item
    rw [List.mem_append, split]
    by_cases early : item ∈ list.take limit
    · exact iff_of_true (.inl early) (covers.wanted_of_first shows early)
    · simp [early]
  · refine List.pairwise_append.mpr ⟨shows.newest.sublist (List.take_sublist limit list),
      last.newest, ?_⟩
    intro first early item later
    obtain ⟨member, late⟩ := (split item).mp later
    exact covers.le_first shows member late early
  · cases rest with
    | nil => rw [List.append_nil, List.take_take, Nat.min_self]
    | cons item rest =>
        obtain ⟨member, late⟩ := (split item).mp List.mem_cons_self
        exact (List.take_left' (covers.length_first shows member late)).symm

theorem of_eq (same : found = wanted) : Covers stamp found wanted limit := by
  subst same
  exact ⟨fun _ member absent => absurd member absent, fun _ member absent => absurd member absent⟩

end Covers

/-- Whatever order is chosen for equal stamps, the first items that are found are the first ones of
some order of those that are wanted. -/
theorem covers_iff {found wanted : Set Item} (limit : Nat) {list : List Item}
    (shown : Shows stamp found list) (finite : wanted.Finite) :
    (∀ list, Shows stamp found list → ∃ other, Shows stamp wanted other ∧
      list.take limit = other.take limit) ↔ Covers stamp found wanted limit := by
  obtain ⟨other, asked⟩ := exists_shows_of_finite stamp finite
  constructor
  · intro agree
    refine ⟨?_, ?_⟩
    · intro item member strange
      by_contra few
      obtain ⟨list, shows, early⟩ := shown.exists_early member (not_le.mp few)
      obtain ⟨other, own, same⟩ := agree list shows
      rw [same] at early
      exact strange ((own.members item).mp (List.mem_of_mem_take early))
    · intro item member absent
      obtain ⟨order, own, same⟩ := agree list shown
      apply own.le_ncard member _ shown
      · rw [← same]
        exact List.take_sublist limit list
      · rw [← same]
        exact fun early => absent ((shown.members item).mp (List.mem_of_mem_take early))
  · exact fun covers list shows => covers.exists_shows asked shows

end Newest
