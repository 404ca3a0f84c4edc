import Mathlib.Data.List.Basic
import Mathlib.Data.List.Pairwise
import Mathlib.Data.List.Perm.Basic

namespace Splice

variable {Item : Type*}

/-- An edit replaces the items from its start up to its stop. -/
structure Edit (Item : Type*) where
  start : Nat
  stop : Nat
  items : List Item

/-- An edit is applied on its own. -/
def Edit.apply (edit : Edit Item) (list : List Item) : List Item :=
  list.take edit.start ++ edit.items ++ list.drop edit.stop

/-- What comes at a place is every insertion there in its order, and then the replacement. -/
def added (edits : List (Edit Item)) (place : Nat) : List Item :=
  (edits.filter fun edit => edit.start = place ∧ edit.stop = place).flatMap Edit.items ++
    (edits.filter fun edit => edit.start = place ∧ edit.stop ≠ place).flatMap Edit.items

/-- The item at a place is taken by an edit. -/
def Taken (edits : List (Edit Item)) (place : Nat) : Prop :=
  ∃ edit ∈ edits, edit.start ≤ place ∧ place < edit.stop

instance (edits : List (Edit Item)) (place : Nat) : Decidable (Taken edits place) :=
  inferInstanceAs (Decidable (∃ edit ∈ edits, _))

/-- Every range of the original list is replaced, whatever comes at the other places. -/
def togetherFrom (edits : List (Edit Item)) : Nat → List Item → List Item
  | place, [] => added edits place
  | place, item :: rest =>
      added edits place ++ (if Taken edits place then [] else [item]) ++
        togetherFrom edits (place + 1) rest

/-- All edits replace their ranges of the original list at once. -/
def together (edits : List (Edit Item)) (list : List Item) : List Item :=
  togetherFrom edits 0 list

/-- The ranges stand one behind the other. -/
def Stacked (edits : List (Edit Item)) : Prop :=
  edits.Pairwise fun lower upper => lower.stop ≤ upper.start

/-- Two ranges have nothing in common. -/
def Apart (first second : Edit Item) : Prop :=
  first.stop ≤ second.start ∨ second.stop ≤ first.start

instance (first second : Edit Item) : Decidable (Apart first second) :=
  inferInstanceAs (Decidable (_ ∨ _))

theorem Apart.symm {first second : Edit Item} (apart : Apart first second) : Apart second first :=
  Or.symm apart

/-- A range lies inside a list of this length. -/
def Edit.Within (edit : Edit Item) (length : Nat) : Prop :=
  edit.start ≤ edit.stop ∧ edit.stop ≤ length

theorem added_eq_nil {edits : List (Edit Item)} {place : Nat}
    (away : ∀ edit ∈ edits, edit.start ≠ place) : added edits place = [] := by
  rw [added, List.filter_eq_nil_iff.mpr, List.filter_eq_nil_iff.mpr]
  · rfl
  · intro edit member
    simp [away edit member]
  · intro edit member
    simp [away edit member]

theorem added_cons_of_ne {edit : Edit Item} {edits : List (Edit Item)} {place : Nat}
    (away : edit.start ≠ place) : added (edit :: edits) place = added edits place := by
  simp [added, away]

/-- An insertion comes before what the later edits bring to its place. -/
theorem added_cons_insertion {edit : Edit Item} {edits : List (Edit Item)}
    (point : edit.start = edit.stop) :
    added (edit :: edits) edit.stop = edit.items ++ added edits edit.stop := by
  simp [added, point]

theorem taken_cons {edit : Edit Item} {edits : List (Edit Item)} {place : Nat} :
    Taken (edit :: edits) place ↔
      (edit.start ≤ place ∧ place < edit.stop) ∨ Taken edits place := by
  simp [Taken]

/-- Places before every edit keep their items. -/
theorem togetherFrom_append {edits : List (Edit Item)} {place : Nat} {front rest : List Item}
    (later : ∀ edit ∈ edits, place + front.length ≤ edit.start) :
    togetherFrom edits place (front ++ rest) =
      front ++ togetherFrom edits (place + front.length) rest := by
  induction front generalizing place with
  | nil => rfl
  | cons item front ih =>
      have nothing : added edits place = [] := added_eq_nil fun edit member => by
        have after := later edit member
        rw [List.length_cons] at after
        omega
      have free : ¬Taken edits place := by
        intro ⟨edit, member, before, _⟩
        have after := later edit member
        rw [List.length_cons] at after
        omega
      have shifted : place + 1 + front.length = place + (item :: front).length := by
        rw [List.length_cons]
        omega
      rw [List.cons_append, togetherFrom, nothing, if_neg free, ih (by rwa [shifted]), shifted]
      rfl

/-- An edit that is over has no effect any more. -/
theorem togetherFrom_cons_past {edit : Edit Item} {edits : List (Edit Item)} {place : Nat}
    {list : List Item} (begun : edit.start < place) (ended : edit.stop ≤ place) :
    togetherFrom (edit :: edits) place list = togetherFrom edits place list := by
  induction list generalizing place with
  | nil => exact added_cons_of_ne (Nat.ne_of_lt begun)
  | cons item rest ih =>
      have free : ¬(edit.start ≤ place ∧ place < edit.stop) := by omega
      rw [togetherFrom, togetherFrom, added_cons_of_ne (Nat.ne_of_lt begun),
        ih (Nat.lt_succ_of_lt begun) (Nat.le_succ_of_le ended)]
      simp only [taken_cons, free, false_or]

/-- The rest of a range is taken. -/
theorem togetherFrom_cons_taken {edit : Edit Item} {edits : List (Edit Item)} {place : Nat}
    {gone rest : List Item} (begun : edit.start < place) (length : place + gone.length = edit.stop)
    (later : ∀ other ∈ edits, edit.stop ≤ other.start) :
    togetherFrom (edit :: edits) place (gone ++ rest) = togetherFrom edits edit.stop rest := by
  induction gone generalizing place with
  | nil =>
      rw [← length]
      exact togetherFrom_cons_past begun (by rw [← length]; exact Nat.le_refl _)
  | cons item gone ih =>
      rw [List.length_cons] at length
      have nothing : added (edit :: edits) place = [] := by
        rw [added_cons_of_ne (Nat.ne_of_lt begun)]
        exact added_eq_nil fun other member => by
          have after := later other member
          omega
      have taken : Taken (edit :: edits) place := taken_cons.mpr (.inl (by omega))
      rw [List.cons_append, togetherFrom, nothing, if_pos taken,
        ih (Nat.lt_succ_of_lt begun) (by omega)]
      rfl

/-- The lowest edit may be applied after all the others. -/
theorem together_cons {edit : Edit Item} {edits : List (Edit Item)} {list : List Item}
    (inside : edit.Within list.length) (later : ∀ other ∈ edits, edit.stop ≤ other.start) :
    together (edit :: edits) list = edit.apply (together edits list) := by
  obtain ⟨ordered, bounded⟩ := inside
  obtain ⟨front, gone, rest, rfl, start, stop⟩ : ∃ front gone rest, list = front ++ (gone ++ rest) ∧
      front.length = edit.start ∧ front.length + gone.length = edit.stop := by
    refine ⟨list.take edit.start, (list.drop edit.start).take (edit.stop - edit.start),
      list.drop edit.stop, ?_, ?_, ?_⟩
    · rw [show list.drop edit.stop = (list.drop edit.start).drop (edit.stop - edit.start) by
        rw [List.drop_drop]; congr 1; omega, List.take_append_drop, List.take_append_drop]
    · rw [List.length_take]
      omega
    · rw [List.length_take, List.length_take, List.length_drop]
      omega
  have others : together edits (front ++ (gone ++ rest)) =
      front ++ gone ++ togetherFrom edits edit.stop rest := by
    rw [together, ← List.append_assoc, togetherFrom_append, List.length_append, Nat.zero_add, stop]
    intro other member
    rw [List.length_append, Nat.zero_add, stop]
    exact later other member
  have applied : edit.apply (together edits (front ++ (gone ++ rest))) =
      front ++ edit.items ++ togetherFrom edits edit.stop rest := by
    rw [others, Edit.apply, ← start, ← stop, List.append_assoc front gone, List.take_left' rfl,
      ← List.append_assoc front gone, List.drop_left' (List.length_append)]
  rw [applied, together, togetherFrom_append]
  · rw [Nat.zero_add, start, List.append_assoc]
    congr 1
    cases gone with
    | nil =>
        have point : edit.start = edit.stop := by rw [← start, ← stop]; rfl
        rw [List.nil_append, point]
        cases rest with
        | nil => exact added_cons_insertion point
        | cons item rest =>
            have free : ¬(edit.start ≤ edit.stop ∧ edit.stop < edit.stop) := by omega
            rw [togetherFrom, togetherFrom, added_cons_insertion point,
              togetherFrom_cons_past (by omega) (by omega)]
            simp only [taken_cons, free, false_or, List.append_assoc]
    | cons item gone =>
        rw [List.length_cons] at stop
        have only : added (edit :: edits) edit.start = edit.items := by
          have inside : edit.stop ≠ edit.start := by omega
          have away : added edits edit.start = [] := added_eq_nil fun other member => by
            have after := later other member
            omega
          rw [added] at away
          obtain ⟨first, second⟩ := List.append_eq_nil_iff.mp away
          simp only [added, List.filter_cons, inside, and_false, decide_false, ne_eq,
            not_false_eq_true, and_self, decide_true, if_true, Bool.false_eq_true, if_false,
            List.flatMap_cons, first, List.nil_append]
          rw [second, List.append_nil]
        have taken : Taken (edit :: edits) edit.start := taken_cons.mpr (.inl (by omega))
        rw [List.cons_append, togetherFrom, only, if_pos taken, List.append_nil,
          togetherFrom_cons_taken (by omega) (by omega) later]
  · intro other member
    rw [Nat.zero_add, start]
    rcases List.mem_cons.mp member with rfl | rest
    · exact Nat.le_refl _
    · exact Nat.le_trans ordered (later other rest)

/-- Stacked edits that are applied from the last one to the first one replace their ranges
together. -/
theorem foldr_apply {edits : List (Edit Item)} {list : List Item} (stacked : Stacked edits)
    (inside : ∀ edit ∈ edits, edit.Within list.length) :
    edits.foldr Edit.apply list = together edits list := by
  induction edits with
  | nil =>
      have same : together ([] : List (Edit Item)) (list ++ []) = list ++ [] :=
        togetherFrom_append fun edit member => absurd member List.not_mem_nil
      rw [List.append_nil] at same
      exact same.symm
  | cons edit edits ih =>
      obtain ⟨later, rest⟩ := List.pairwise_cons.mp stacked
      obtain ⟨here, others⟩ := List.forall_mem_cons.mp inside
      rw [List.foldr_cons, ih rest others, together_cons here later]

/-- Only what the edits bring to each place and what they take counts. -/
theorem togetherFrom_congr {first second : List (Edit Item)}
    (same : ∀ place, added first place = added second place)
    (taken : ∀ place, Taken first place ↔ Taken second place) (place : Nat) (list : List Item) :
    togetherFrom first place list = togetherFrom second place list := by
  induction list generalizing place with
  | nil => exact same place
  | cons item rest ih =>
      rw [togetherFrom, togetherFrom, same, ih]
      simp only [taken]

theorem Taken.of_perm {first second : List (Edit Item)} (perm : first.Perm second) (place : Nat) :
    Taken first place ↔ Taken second place := by
  simp only [Taken, perm.mem_iff]

/-- The order of edits does not matter where every range has an item and no two have one in
common. -/
theorem together_perm {first second : List (Edit Item)} (perm : first.Perm second)
    (apart : first.Pairwise Apart) (filled : ∀ edit ∈ first, edit.start < edit.stop)
    (list : List Item) : together first list = together second list := by
  apply togetherFrom_congr
  · intro place
    have points : ∀ edits : List (Edit Item), edits.Perm first →
        (edits.filter fun edit => edit.start = place ∧ edit.stop = place) = [] := by
      intro edits same
      rw [List.filter_eq_nil_iff]
      intro edit member
      have ordered := filled edit (same.mem_iff.mp member)
      rw [decide_eq_true_iff]
      omega
    have ranges := perm.filter fun edit => decide (edit.start = place ∧ edit.stop ≠ place)
    have single : (first.filter fun edit =>
        decide (edit.start = place ∧ edit.stop ≠ place)).length ≤ 1 := by
      have own := apart.filter (p := fun edit => decide (edit.start = place ∧ edit.stop ≠ place))
      cases held : first.filter fun edit => decide (edit.start = place ∧ edit.stop ≠ place) with
      | nil => exact Nat.zero_le _
      | cons one more =>
          cases more with
          | nil => exact Nat.le_refl _
          | cons two others =>
              rw [held] at own
              have between := List.rel_of_pairwise_cons own (List.mem_cons_self ..)
              have members : ∀ edit ∈ one :: two :: others,
                  edit ∈ first ∧ edit.start = place ∧ edit.stop ≠ place := by
                intro edit member
                rw [← held, List.mem_filter, decide_eq_true_iff] at member
                exact member
              obtain ⟨oneIn, oneAt, -⟩ := members one (List.mem_cons_self ..)
              obtain ⟨twoIn, twoAt, -⟩ := members two (.tail _ (List.mem_cons_self ..))
              have oneFilled := filled one oneIn
              have twoFilled := filled two twoIn
              rcases between with before | after <;> omega
    rw [added, added, points first (.refl _), points second perm.symm]
    congr 2
    generalize (first.filter _) = kept at ranges single
    cases kept with
    | nil => exact (List.nil_perm.mp ranges).symm
    | cons one more =>
        cases more with
        | nil => exact List.singleton_perm.mp ranges
        | cons two others =>
            rw [List.length_cons, List.length_cons] at single
            omega
  · exact fun place => Taken.of_perm perm place

/-- An edit of other items. -/
def Edit.map {Other : Type*} (change : Item → Other) (edit : Edit Item) : Edit Other :=
  ⟨edit.start, edit.stop, edit.items.map change⟩

theorem added_map {Other : Type*} (change : Item → Other) (edits : List (Edit Item)) (place : Nat) :
    added (edits.map (Edit.map change)) place = (added edits place).map change := by
  have part : ∀ keep : Nat → Nat → Bool,
      ((edits.map (Edit.map change)).filter fun edit => keep edit.start edit.stop).flatMap
          Edit.items =
        ((edits.filter fun edit => keep edit.start edit.stop).flatMap Edit.items).map change := by
    intro keep
    rw [List.filter_map, List.flatMap_map, List.map_flatMap]
    rfl
  rw [added, added, List.map_append]
  exact congrArg₂ (· ++ ·) (part fun start stop => decide (start = place ∧ stop = place))
    (part fun start stop => decide (start = place ∧ stop ≠ place))

/-- Edits commute with a change of every item. -/
theorem togetherFrom_map {Other : Type*} (change : Item → Other) (edits : List (Edit Item))
    (place : Nat) (list : List Item) :
    togetherFrom (edits.map (Edit.map change)) place (list.map change) =
      (togetherFrom edits place list).map change := by
  have taken : ∀ place, Taken (edits.map (Edit.map change)) place ↔ Taken edits place := by
    intro place
    simp [Taken, Edit.map]
  induction list generalizing place with
  | nil => exact added_map change edits place
  | cons item rest ih =>
      rw [List.map_cons, togetherFrom, togetherFrom, added_map, ih]
      simp only [taken, List.map_append]
      split_ifs <;> rfl

theorem mem_added {edits : List (Edit Item)} {place : Nat} {item : Item}
    (member : item ∈ added edits place) : ∃ edit ∈ edits, item ∈ edit.items := by
  rw [added, List.mem_append, List.mem_flatMap, List.mem_flatMap] at member
  rcases member with ⟨edit, held, inside⟩ | ⟨edit, held, inside⟩
  · exact ⟨edit, List.mem_of_mem_filter held, inside⟩
  · exact ⟨edit, List.mem_of_mem_filter held, inside⟩

/-- A list is edited part by part. -/
theorem togetherFrom_split (edits : List (Edit Item)) (place : Nat) (front rest : List Item) :
    ∃ upper, togetherFrom edits place (front ++ rest) =
        upper ++ togetherFrom edits (place + front.length) rest ∧
      ∀ item ∈ upper, item ∈ front ∨ ∃ edit ∈ edits, item ∈ edit.items := by
  induction front generalizing place with
  | nil => exact ⟨[], rfl, fun item member => absurd member List.not_mem_nil⟩
  | cons first front ih =>
      obtain ⟨upper, same, known⟩ := ih (place + 1)
      have shifted : place + 1 + front.length = place + (first :: front).length := by
        rw [List.length_cons]
        omega
      refine ⟨added edits place ++ (if Taken edits place then [] else [first]) ++ upper, ?_, ?_⟩
      · rw [List.cons_append, togetherFrom, same, shifted, List.append_assoc _ upper]
      · intro item member
        rw [List.mem_append, List.mem_append] at member
        rcases member with (new | own) | later
        · exact .inr (mem_added new)
        · split_ifs at own with taken
          · exact absurd own List.not_mem_nil
          · rw [List.mem_singleton.mp own]
            exact .inl (List.mem_cons_self ..)
        · exact (known item later).imp_left (.tail first)

end Splice
