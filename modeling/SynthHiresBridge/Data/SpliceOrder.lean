import Mathlib.Data.List.Sort
import SynthHiresBridge.Data.Splice

namespace Sorting

variable {Item : Type*} (key : Item → Nat)

/-- An item is put before the items with its key. -/
theorem filter_orderedInsert (place : Nat) (item : Item) (list : List Item) :
    (list.orderedInsert (fun first second => key first ≤ key second) item).filter
        (fun item => key item = place) = (item :: list).filter fun item => key item = place := by
  induction list with
  | nil => rfl
  | cons first rest ih =>
      rw [List.orderedInsert_cons]
      split_ifs with before
      · rfl
      · rw [List.filter_cons, ih]
        by_cases here : key first = place
        · have other : key item ≠ place := by omega
          simp [here, other]
        · simp [here, List.filter_cons]

/-- A stable sort keeps the items of one key in their order. -/
theorem filter_insertionSort (place : Nat) (list : List Item) :
    (list.insertionSort fun first second => key first ≤ key second).filter
        (fun item => key item = place) = list.filter fun item => key item = place := by
  induction list with
  | nil => rfl
  | cons item rest ih =>
      rw [List.insertionSort_cons, filter_orderedInsert, List.filter_cons, List.filter_cons, ih]

/-- The items with the lowest key come first. -/
theorem lowest_first {list : List Item} {low : Nat}
    (sorted : list.Pairwise fun first second => key first ≤ key second)
    (above : ∀ item ∈ list, low ≤ key item) : ∃ same others, list = same ++ others ∧
      (∀ item ∈ same, key item = low) ∧ ∀ item ∈ others, low < key item := by
  induction list with
  | nil => exact ⟨[], [], rfl, List.forall_mem_nil _, List.forall_mem_nil _⟩
  | cons item rest ih =>
      obtain ⟨later, ordered⟩ := List.pairwise_cons.mp sorted
      obtain ⟨here, others⟩ := List.forall_mem_cons.mp above
      rcases Nat.eq_or_lt_of_le here with same | higher
      · obtain ⟨lows, highs, rfl, equal, over_low⟩ := ih ordered others
        exact ⟨item :: lows, highs, rfl, List.forall_mem_cons.mpr ⟨same.symm, equal⟩, over_low⟩
      · refine ⟨[], item :: rest, rfl, List.forall_mem_nil _, ?_⟩
        refine List.forall_mem_cons.mpr ⟨higher, fun other member => ?_⟩
        exact Nat.lt_of_lt_of_le higher (later other member)

end Sorting

namespace Splice

variable {Item : Type*}

/-- The edits that start at a place. -/
def groupAt (edits : List (Edit Item)) (place : Nat) : List (Edit Item) :=
  edits.filter fun edit => edit.start = place

/-- The items that an edit replaces. -/
def Edit.gone (edit : Edit Item) (list : List Item) : List Item :=
  (list.take edit.stop).drop edit.start

/-- The insertions that are listed after a replacement of their place fit behind it. -/
def InOrder (list : List Item) (edits : List (Edit Item)) : Prop :=
  ∀ place before edit later, groupAt edits place = before ++ edit :: later →
    edit.start < edit.stop →
      edit.items ++ (later.flatMap Edit.items ++ edit.gone list).drop (edit.stop - edit.start) =
        later.flatMap Edit.items ++ edit.items

theorem groupAt_cons (edit : Edit Item) (edits : List (Edit Item)) (place : Nat) :
    groupAt (edit :: edits) place =
      if edit.start = place then edit :: groupAt edits place else groupAt edits place := by
  rw [groupAt, List.filter_cons]
  simp only [decide_eq_true_eq, groupAt]

theorem groupAt_append (first second : List (Edit Item)) (place : Nat) :
    groupAt (first ++ second) place = groupAt first place ++ groupAt second place :=
  List.filter_append first second

theorem groupAt_of_all {edits : List (Edit Item)} {place : Nat}
    (all : ∀ edit ∈ edits, edit.start = place) : groupAt edits place = edits :=
  List.filter_eq_self.mpr fun edit member => decide_eq_true (all edit member)

theorem groupAt_of_none {edits : List (Edit Item)} {place : Nat}
    (away : ∀ edit ∈ edits, edit.start ≠ place) : groupAt edits place = [] := by
  refine List.filter_eq_nil_iff.mpr fun edit member held => ?_
  exact away edit member (of_decide_eq_true held)

/-- The order of edits with different starts does not matter. -/
theorem together_congr {first second : List (Edit Item)}
    (same : ∀ place, groupAt first place = groupAt second place) (list : List Item) :
    together first list = together second list := by
  have parts : ∀ (edits : List (Edit Item)) place, added edits place =
      ((groupAt edits place).filter fun edit => edit.stop = place).flatMap Edit.items ++
        ((groupAt edits place).filter fun edit => edit.stop ≠ place).flatMap Edit.items := by
    intro edits place
    rw [added, groupAt, List.filter_filter, List.filter_filter]
    congr 3
    · funext edit
      rw [Bool.decide_and, Bool.and_comm]
    · funext edit
      rw [Bool.decide_and, Bool.and_comm]
  have members : ∀ edit, edit ∈ first ↔ edit ∈ second := by
    intro edit
    have here : ∀ edits : List (Edit Item), edit ∈ edits ↔ edit ∈ groupAt edits edit.start := by
      intro edits
      rw [groupAt, List.mem_filter, and_iff_left (decide_eq_true rfl)]
    rw [here first, here second, same]
  apply togetherFrom_congr
  · intro place
    rw [parts, parts, same]
  · intro place
    simp only [Taken, members]

theorem InOrder.congr {list : List Item} {first second : List (Edit Item)}
    (same : ∀ place, groupAt first place = groupAt second place) :
    InOrder list first ↔ InOrder list second := by
  simp only [InOrder, same]

/-- An edit behind a place keeps what stands before it. -/
theorem take_apply {edit : Edit Item} {list : List Item} {place : Nat} (low : place ≤ edit.start)
    (long : place ≤ list.length) :
    (edit.apply list).take place = list.take place ∧ place ≤ (edit.apply list).length := by
  have enough : place ≤ (list.take edit.start).length := by
    rw [List.length_take]
    omega
  constructor
  · rw [Edit.apply, List.append_assoc, List.take_append_of_le_length enough, List.take_take,
      Nat.min_eq_left low]
  · rw [Edit.apply, List.length_append, List.length_append]
    omega

theorem take_foldr {edits : List (Edit Item)} {list : List Item} {place : Nat}
    (low : ∀ edit ∈ edits, place ≤ edit.start) (long : place ≤ list.length) :
    (edits.foldr Edit.apply list).take place = list.take place ∧
      place ≤ (edits.foldr Edit.apply list).length := by
  induction edits with
  | nil => exact ⟨rfl, long⟩
  | cons edit edits ih =>
      obtain ⟨here, others⟩ := List.forall_mem_cons.mp low
      obtain ⟨same, enough⟩ := ih others
      obtain ⟨kept, more⟩ := take_apply here enough
      exact ⟨kept.trans same, more⟩

theorem take_together {edits : List (Edit Item)} {list : List Item} {place : Nat}
    (low : ∀ edit ∈ edits, place ≤ edit.start) (long : place ≤ list.length) :
    (together edits list).take place = list.take place ∧
      place ≤ (together edits list).length := by
  have length : (list.take place).length = place := List.length_take_of_le long
  have split : together edits (list.take place ++ list.drop place) =
      list.take place ++ togetherFrom edits (0 + (list.take place).length) (list.drop place) := by
    refine togetherFrom_append fun edit member => ?_
    rw [length, Nat.zero_add]
    exact low edit member
  rw [List.take_append_drop] at split
  rw [split]
  constructor
  · exact List.take_left' length
  · rw [List.length_append, length]
    exact Nat.le_add_right _ _

/-- An insertion behind a part of a list. -/
theorem apply_behind {edit : Edit Item} {front back : List Item}
    (start : edit.start = front.length) (point : edit.stop = edit.start) :
    edit.apply (front ++ back) = front ++ (edit.items ++ back) := by
  rw [Edit.apply, point, start, List.take_left, List.drop_left, List.append_assoc]

theorem foldr_behind {edits : List (Edit Item)} {front back : List Item}
    (start : ∀ edit ∈ edits, edit.start = front.length)
    (point : ∀ edit ∈ edits, edit.stop = edit.start) :
    edits.foldr Edit.apply (front ++ back) = front ++ (edits.flatMap Edit.items ++ back) := by
  induction edits with
  | nil => rfl
  | cons edit edits ih =>
      obtain ⟨here, others⟩ := List.forall_mem_cons.mp start
      obtain ⟨own, points⟩ := List.forall_mem_cons.mp point
      rw [List.foldr_cons, ih others points, apply_behind here own, List.flatMap_cons,
        List.append_assoc]

/-- The lowest edits may be applied after all the others. -/
theorem together_append {low high : List (Edit Item)} {list : List Item}
    (inside : ∀ edit ∈ low, edit.Within list.length)
    (stacked : low.Pairwise fun lower upper => lower.stop ≤ upper.start)
    (later : ∀ edit ∈ low, ∀ other ∈ high, edit.stop ≤ other.start) :
    together (low ++ high) list = low.foldr Edit.apply (together high list) := by
  induction low with
  | nil => rfl
  | cons edit low ih =>
      obtain ⟨here, others⟩ := List.forall_mem_cons.mp inside
      obtain ⟨own, rest⟩ := List.pairwise_cons.mp stacked
      obtain ⟨above, higher⟩ := List.forall_mem_cons.mp later
      rw [List.cons_append, together_cons here, ih others rest higher, List.foldr_cons]
      intro other member
      rcases List.mem_append.mp member with lower | upper
      · exact own other lower
      · exact above other upper

/-- An insertion leaves the lists different that it is applied to. -/
theorem apply_eq_iff {edit : Edit Item} {first second : List Item}
    (point : edit.stop = edit.start) (same : first.take edit.start = second.take edit.start) :
    edit.apply first = edit.apply second ↔ first = second := by
  constructor
  · intro equal
    rw [Edit.apply, Edit.apply, same, point] at equal
    rw [← List.take_append_drop edit.start first, ← List.take_append_drop edit.start second, same,
      List.append_cancel_left equal]
  · rintro rfl
    rfl

theorem InOrder.tail {list : List Item} {edit : Edit Item} {edits : List (Edit Item)}
    (ordered : InOrder list (edit :: edits)) : InOrder list edits := by
  intro place before other later group filled
  by_cases here : edit.start = place
  · refine ordered place (edit :: before) other later ?_ filled
    rw [groupAt_cons, if_pos here, group, List.cons_append]
  · refine ordered place before other later ?_ filled
    rw [groupAt_cons, if_neg here, group]

theorem inOrder_cons_insertion {list : List Item} {edit : Edit Item} {edits : List (Edit Item)}
    (point : edit.stop = edit.start) : InOrder list (edit :: edits) ↔ InOrder list edits := by
  constructor
  · exact InOrder.tail
  · intro ordered place before other later group filled
    rw [groupAt_cons] at group
    split_ifs at group with here
    · cases before with
      | nil =>
          obtain rfl := (List.cons.inj group).1
          exact absurd filled (by omega)
      | cons first before => exact ordered place before other later (List.cons.inj group).2 filled
    · exact ordered place before other later group filled

theorem inOrder_cons_replacement {list : List Item} {edit : Edit Item}
    {same others : List (Edit Item)} (filled : edit.start < edit.stop)
    (points : ∀ other ∈ same, other.start = edit.start ∧ other.stop = edit.start)
    (above : ∀ other ∈ others, edit.start < other.start) :
    InOrder list (edit :: (same ++ others)) ↔
      edit.items ++ (same.flatMap Edit.items ++ edit.gone list).drop (edit.stop - edit.start) =
          same.flatMap Edit.items ++ edit.items ∧ InOrder list others := by
  have none : groupAt others edit.start = [] :=
    groupAt_of_none fun other member => Nat.ne_of_gt (above other member)
  have all : groupAt same edit.start = same :=
    groupAt_of_all fun other member => (points other member).1
  have group : ∀ place, groupAt (edit :: (same ++ others)) place =
      if edit.start = place then edit :: same else groupAt others place := by
    intro place
    rw [groupAt_cons, groupAt_append]
    split_ifs with here
    · rw [← here, all, none, List.append_nil]
    · have away : groupAt same place = [] :=
        groupAt_of_none fun other member => by rwa [(points other member).1]
      rw [away, List.nil_append]
  constructor
  · intro ordered
    refine ⟨ordered edit.start [] edit same (by rw [group, if_pos rfl, List.nil_append]) filled, ?_⟩
    intro place before other later held
    refine ordered place before other later ?_
    rw [group, if_neg, held]
    rintro rfl
    rw [none] at held
    exact absurd held (by simp)
  · rintro ⟨fits, ordered⟩ place before other later held inside
    rw [group] at held
    split_ifs at held with here
    · cases before with
      | nil =>
          obtain ⟨rfl, rfl⟩ := List.cons.inj held
          exact fits
      | cons first before =>
          have member : other ∈ same := by
            rw [(List.cons.inj held).2]
            exact List.mem_append_right before List.mem_cons_self
          obtain ⟨start, stop⟩ := points other member
          exact absurd inside (by omega)
    · exact ordered place before other later held inside

theorem Edit.Within.length_gone {edit : Edit Item} {list : List Item}
    (within : edit.Within list.length) : (edit.gone list).length = edit.stop - edit.start := by
  rw [gone, List.length_drop, List.length_take_of_le within.2]

theorem Edit.Within.length_take {edit : Edit Item} {list : List Item}
    (within : edit.Within list.length) : (list.take edit.start).length = edit.start :=
  List.length_take_of_le (Nat.le_trans within.1 within.2)

theorem Edit.Within.take_stop {edit : Edit Item} {list : List Item}
    (within : edit.Within list.length) :
    list.take edit.stop = list.take edit.start ++ edit.gone list := by
  have lower : list.take edit.start = (list.take edit.stop).take edit.start := by
    rw [List.take_take, Nat.min_eq_left within.1]
  rw [lower, gone, List.take_append_drop]

/-- A list that keeps the items up to the end of an edit. -/
theorem Edit.Within.parted {edit : Edit Item} {list other : List Item}
    (within : edit.Within list.length) (kept : other.take edit.stop = list.take edit.stop) :
    ∃ tail, other = list.take edit.start ++ (edit.gone list ++ tail) := by
  refine ⟨other.drop edit.stop, ?_⟩
  conv_lhs => rw [← List.take_append_drop edit.stop other, kept, within.take_stop]
  rw [List.append_assoc]

/-- A replacement behind insertions at its start. -/
theorem Edit.Within.apply {edit : Edit Item} {list : List Item} (within : edit.Within list.length)
    (more : List Item) : edit.apply (list.take edit.start ++ more) =
      list.take edit.start ++ (edit.items ++ more.drop (edit.stop - edit.start)) := by
  have behind : (list.take edit.start ++ more).drop edit.stop =
      more.drop (edit.stop - edit.start) := by
    rw [List.drop_append, within.length_take, List.drop_eq_nil_of_le, List.nil_append]
    rw [within.length_take]
    exact within.1
  rw [Edit.apply, behind, List.take_left' within.length_take, List.append_assoc]

/-- What the edits behind a replacement make of a list, and then the insertions at its start. -/
theorem foldr_parted {list : List Item} {edit : Edit Item} {same others : List (Edit Item)}
    (within : edit.Within list.length)
    (points : ∀ other ∈ same, other.start = edit.start ∧ other.stop = edit.start)
    (above : ∀ other ∈ others, edit.stop ≤ other.start) : ∃ tail,
      others.foldr Edit.apply list = list.take edit.start ++ (edit.gone list ++ tail) ∧
      (same ++ others).foldr Edit.apply list =
        list.take edit.start ++ (same.flatMap Edit.items ++ (edit.gone list ++ tail)) := by
  obtain ⟨tail, applied⟩ := within.parted (take_foldr above within.2).1
  refine ⟨tail, applied, ?_⟩
  rw [List.foldr_append, applied, foldr_behind]
  · intro other member
    rw [within.length_take, (points other member).1]
  · exact fun other member => (points other member).2.trans (points other member).1.symm

/-- A replacement with insertions at its start that are applied before it. -/
theorem foldr_replacement_iff {list : List Item} {edit : Edit Item} {same others : List (Edit Item)}
    (within : edit.Within list.length)
    (points : ∀ other ∈ same, other.start = edit.start ∧ other.stop = edit.start)
    (above : ∀ other ∈ others, edit.stop ≤ other.start) :
    (edit :: (same ++ others)).foldr Edit.apply list =
        together (same ++ edit :: others) list ↔
      edit.items ++ (same.flatMap Edit.items ++ edit.gone list).drop (edit.stop - edit.start) =
          same.flatMap Edit.items ++ edit.items ∧
        others.foldr Edit.apply list = together others list := by
  have starts : ∀ other ∈ same, other.start = (list.take edit.start).length := by
    intro other member
    rw [within.length_take, (points other member).1]
  have stops : ∀ other ∈ same, other.stop = other.start :=
    fun other member => (points other member).2.trans (points other member).1.symm
  have whole : together (same ++ edit :: others) list =
      same.foldr Edit.apply (edit.apply (together others list)) := by
    rw [together_append, together_cons within above]
    · intro other member
      obtain ⟨begins, ends⟩ := points other member
      obtain ⟨ordered, bounded⟩ := within
      exact ⟨by omega, by omega⟩
    · refine List.pairwise_of_forall_mem_list fun first held second inside => ?_
      rw [(points first held).2, (points second inside).1]
    · intro other member upper held
      rw [(points other member).2]
      rcases List.mem_cons.mp held with rfl | further
      · exact Nat.le_refl _
      · exact Nat.le_trans within.1 (above upper further)
  obtain ⟨tail, applied, inserted⟩ := foldr_parted within points above
  obtain ⟨rest, joined⟩ := within.parted (take_together above within.2).1
  have long : edit.stop - edit.start ≤ (same.flatMap Edit.items ++ edit.gone list).length := by
    rw [List.length_append, within.length_gone]
    exact Nat.le_add_left _ _
  have length : ((same.flatMap Edit.items ++ edit.gone list).drop
      (edit.stop - edit.start)).length = (same.flatMap Edit.items).length := by
    rw [List.length_drop, List.length_append, within.length_gone, Nat.add_sub_cancel]
  rw [whole, List.foldr_cons, inserted, applied, joined, within.apply, within.apply,
    foldr_behind starts stops, ← List.append_assoc _ (edit.gone list),
    List.drop_append_of_le_length long, List.drop_left' within.length_gone]
  generalize (same.flatMap Edit.items ++ edit.gone list).drop _ = kept at length
  rw [List.append_cancel_left_eq, List.append_cancel_left_eq, List.append_cancel_left_eq,
    ← List.append_assoc, ← List.append_assoc (same.flatMap Edit.items)]
  constructor
  · intro equal
    refine List.append_inj equal ?_
    rw [List.length_append, List.length_append, length, Nat.add_comm]
  · rintro ⟨first, second⟩
    rw [first, second]

/-- Insertions may be listed before a replacement. -/
theorem together_swap {edit : Edit Item} {same others : List (Edit Item)}
    (filled : edit.start < edit.stop) (points : ∀ other ∈ same, other.stop = other.start)
    (list : List Item) :
    together (edit :: (same ++ others)) list = together (same ++ edit :: others) list := by
  apply togetherFrom_congr
  · intro place
    have filling : ¬(edit.start = place ∧ edit.stop = place) := by omega
    have none : (same.filter fun other => other.start = place ∧ other.stop ≠ place) = [] := by
      refine List.filter_eq_nil_iff.mpr fun other member held => ?_
      obtain ⟨here, ends⟩ := of_decide_eq_true held
      exact ends ((points other member).trans here)
    simp only [added, List.filter_cons, List.filter_append, filling, none, decide_false,
      Bool.false_eq_true, if_false, List.nil_append]
  · intro place
    simp only [Taken, List.mem_cons, List.mem_append, or_left_comm]

/-- Behind a replacement come the insertions at its start and then the edits behind its stop. -/
theorem replacement_group {edit : Edit Item} {rest : List (Edit Item)}
    (lowest : ∀ other ∈ rest, edit.start ≤ other.start)
    (sorted : rest.Pairwise fun lower upper => lower.start ≤ upper.start)
    (apart : ∀ other ∈ rest, Apart edit other) (ordered : ∀ other ∈ rest, other.start ≤ other.stop)
    (filled : edit.start < edit.stop) : ∃ same others, rest = same ++ others ∧
      (∀ other ∈ same, other.start = edit.start ∧ other.stop = edit.start) ∧
      ∀ other ∈ others, edit.stop ≤ other.start := by
  obtain ⟨same, others, rfl, equal, higher⟩ := Sorting.lowest_first Edit.start sorted lowest
  refine ⟨same, others, rfl, ?_, ?_⟩
  · intro other member
    have begins := equal other member
    have upward := ordered other (List.mem_append_left others member)
    refine ⟨begins, ?_⟩
    rcases apart other (List.mem_append_left others member) with below | above <;> omega
  · intro other member
    have upward := ordered other (List.mem_append_right same member)
    have begins := higher other member
    rcases apart other (List.mem_append_right same member) with below | above <;> omega

/-- Edits that are apart and sorted by their starts are applied from the last one to the first one
as if together exactly where they are in order. -/
theorem foldr_apply_iff {edits : List (Edit Item)} {list : List Item}
    (sorted : edits.Pairwise fun lower upper => lower.start ≤ upper.start)
    (apart : edits.Pairwise Apart) (inside : ∀ edit ∈ edits, edit.Within list.length) :
    edits.foldr Edit.apply list = together edits list ↔ InOrder list edits := by
  induction length : edits.length using Nat.strong_induction_on generalizing edits with
  | _ size ih =>
      subst length
      cases edits with
      | nil =>
          refine iff_of_true (foldr_apply .nil inside) fun place before edit later group => ?_
          exact absurd group (by simp [groupAt])
      | cons edit rest =>
          obtain ⟨lowest, ordered⟩ := List.pairwise_cons.mp sorted
          obtain ⟨own, others_apart⟩ := List.pairwise_cons.mp apart
          obtain ⟨here, within⟩ := List.forall_mem_cons.mp inside
          rcases Nat.eq_or_lt_of_le here.1 with point | filled
          · have later : ∀ other ∈ rest, edit.stop ≤ other.start :=
              fun other member => point ▸ lowest other member
            have long : edit.start ≤ list.length := Nat.le_trans here.1 here.2
            have kept := (take_foldr lowest long).1.trans (take_together lowest long).1.symm
            rw [List.foldr_cons, together_cons here later, apply_eq_iff point.symm kept,
              inOrder_cons_insertion point.symm]
            exact ih rest.length (Nat.lt_succ_self _) ordered others_apart within rfl
          · obtain ⟨same, others, rfl, points, above⟩ := replacement_group lowest ordered own
              (fun other member => (within other member).1) filled
            have swapped : together (edit :: (same ++ others)) list =
                together (same ++ edit :: others) list :=
              together_swap filled (fun other member =>
                (points other member).2.trans (points other member).1.symm) list
            have higher : ∀ other ∈ others, edit.start < other.start :=
              fun other member => Nat.lt_of_lt_of_le filled (above other member)
            have fewer : others.length < (edit :: (same ++ others)).length := by
              rw [List.length_cons, List.length_append]
              omega
            rw [swapped, foldr_replacement_iff here points above,
              inOrder_cons_replacement filled points higher]
            refine and_congr_right fun _ => ih others.length fewer ?_ ?_ ?_ rfl
            · exact (List.pairwise_append.mp ordered).2.1
            · exact (List.pairwise_append.mp others_apart).2.1
            · exact fun other member => within other (List.mem_append_right same member)

/-- A stable sort by the starts keeps the groups of edits. -/
theorem groupAt_insertionSort (edits : List (Edit Item)) (place : Nat) :
    groupAt (edits.insertionSort fun first second => first.start ≤ second.start) place =
      groupAt edits place :=
  Sorting.filter_insertionSort Edit.start place edits

/-- Edits that are apart are applied in the order of their starts, from the last one to the first
one, as if together exactly where they are in order. -/
theorem foldr_sorted_iff {edits : List (Edit Item)} {list : List Item}
    (apart : edits.Pairwise Apart) (inside : ∀ edit ∈ edits, edit.Within list.length) :
    (edits.insertionSort fun first second => first.start ≤ second.start).foldr Edit.apply list =
      together edits list ↔ InOrder list edits := by
  let sorted := edits.insertionSort fun first second => first.start ≤ second.start
  have perm : sorted.Perm edits := List.perm_insertionSort _ edits
  have same := groupAt_insertionSort edits
  rw [← together_congr same, ← InOrder.congr same]
  refine foldr_apply_iff ?_ ?_ ?_
  · exact List.pairwise_insertionSort _ edits
  · exact (perm.pairwise_iff Apart.symm).mpr apart
  · exact fun edit member => inside edit (perm.mem_iff.mp member)

section Whole

variable {Whole : List Item → Prop}

/-- A list is cut at the ends of an edit. -/
structure Edit.Cuts (Whole : List Item → Prop) (edit : Edit Item) (list : List Item) : Prop where
  long : edit.stop ≤ list.length
  start : Whole (list.drop edit.start)
  stop : Whole (list.drop edit.stop)

theorem whole_flatMap (joins : ∀ {front rest}, Whole front → Whole rest → Whole (front ++ rest))
    (leaves : ∀ {front rest}, Whole front → Whole (front ++ rest) → Whole rest)
    {edits : List (Edit Item)} {list : List Item} (whole : Whole list)
    (items : ∀ edit ∈ edits, Whole edit.items) : Whole (edits.flatMap Edit.items) := by
  induction edits with
  | nil =>
      have same : Whole (list ++ []) := by rwa [List.append_nil]
      exact leaves whole same
  | cons edit edits ih =>
      obtain ⟨here, others⟩ := List.forall_mem_cons.mp items
      exact joins here (ih others)

/-- A replacement that fits behind the insertions at its start cuts them and what it replaces. -/
theorem cuts_replacement (joins : ∀ {front rest}, Whole front → Whole rest → Whole (front ++ rest))
    (leaves : ∀ {front rest}, Whole front → Whole (front ++ rest) → Whole rest)
    {edit : Edit Item} {list late tail made : List Item} (within : edit.Within list.length)
    (begins : Whole (list.take edit.start)) (ends : Whole (list.take edit.stop))
    (new : Whole edit.items) (inserted : Whole late)
    (fits : edit.items ++ (late ++ edit.gone list).drop (edit.stop - edit.start) =
      late ++ edit.items)
    (whole : Whole made)
    (shape : made = list.take edit.start ++ (late ++ (edit.gone list ++ tail))) :
    edit.Cuts Whole made ∧ Whole (edit.apply made) := by
  have long : edit.stop - edit.start ≤ (late ++ edit.gone list).length := by
    rw [List.length_append, within.length_gone]
    exact Nat.le_add_left _ _
  have gone : Whole (edit.gone list) := leaves begins (within.take_stop ▸ ends)
  have behind : Whole (late ++ (edit.gone list ++ tail)) := leaves begins (shape ▸ whole)
  have last : Whole tail := leaves gone (leaves inserted behind)
  have rest : Whole ((late ++ edit.gone list).drop (edit.stop - edit.start)) := by
    refine leaves new ?_
    rw [fits]
    exact joins inserted new
  have dropped : (late ++ (edit.gone list ++ tail)).drop (edit.stop - edit.start) =
      (late ++ edit.gone list).drop (edit.stop - edit.start) ++ tail := by
    rw [← List.append_assoc, List.drop_append_of_le_length long]
  have stop : made.drop edit.stop =
      (late ++ edit.gone list).drop (edit.stop - edit.start) ++ tail := by
    have ordered : edit.stop = edit.start + (edit.stop - edit.start) := by
      have := within.1
      omega
    rw [ordered, ← List.drop_drop, shape, List.drop_left' within.length_take, ← ordered, dropped]
  refine ⟨⟨?_, ?_, ?_⟩, ?_⟩
  · rw [shape, List.length_append, within.length_take, List.length_append, List.length_append,
      within.length_gone]
    omega
  · rw [shape, List.drop_left' within.length_take]
    exact behind
  · rw [stop]
    exact joins rest last
  · rw [shape, within.apply, dropped]
    exact joins begins (joins new (joins rest last))

/-- Edits that are in order cut every list that they are applied to where it may be cut, when
whole parts make a whole list and a whole front leaves a whole rest. -/
theorem cuts_of_inOrder (joins : ∀ {front rest}, Whole front → Whole rest → Whole (front ++ rest))
    (leaves : ∀ {front rest}, Whole front → Whole (front ++ rest) → Whole rest)
    {edits : List (Edit Item)} {list : List Item} (whole : Whole list)
    (sorted : edits.Pairwise fun lower upper => lower.start ≤ upper.start)
    (apart : edits.Pairwise Apart) (inside : ∀ edit ∈ edits, edit.Within list.length)
    (starts : ∀ edit ∈ edits, Whole (list.take edit.start))
    (stops : ∀ edit ∈ edits, Whole (list.take edit.stop))
    (items : ∀ edit ∈ edits, Whole edit.items) (inOrder : InOrder list edits) :
    Whole (edits.foldr Edit.apply list) ∧ ∀ edit rest, edit :: rest <:+ edits →
      edit.Cuts Whole (rest.foldr Edit.apply list) := by
  induction edits with
  | nil =>
      refine ⟨whole, fun edit rest suffix => ?_⟩
      exact absurd (List.suffix_nil.mp suffix) (List.cons_ne_nil edit rest)
  | cons edit rest ih =>
      obtain ⟨lowest, ordered⟩ := List.pairwise_cons.mp sorted
      obtain ⟨own, others_apart⟩ := List.pairwise_cons.mp apart
      obtain ⟨here, within⟩ := List.forall_mem_cons.mp inside
      obtain ⟨begins, starts⟩ := List.forall_mem_cons.mp starts
      obtain ⟨ends, stops⟩ := List.forall_mem_cons.mp stops
      obtain ⟨new, items⟩ := List.forall_mem_cons.mp items
      obtain ⟨made, cuts⟩ := ih ordered others_apart within starts stops items inOrder.tail
      have shape : edit.Cuts Whole (rest.foldr Edit.apply list) ∧
          Whole (edit.apply (rest.foldr Edit.apply list)) := by
        rcases Nat.eq_or_lt_of_le here.1 with point | filled
        · have enough : edit.start ≤ list.length := Nat.le_trans here.1 here.2
          obtain ⟨kept, long⟩ := take_foldr lowest enough
          have split := List.take_append_drop edit.start (rest.foldr Edit.apply list)
          rw [kept] at split
          have behind := leaves begins (split.symm ▸ made)
          refine ⟨⟨point ▸ long, behind, point ▸ behind⟩, ?_⟩
          rw [Edit.apply, kept, ← point]
          exact joins (joins begins new) behind
        · obtain ⟨same, others, rfl, points, above⟩ := replacement_group lowest ordered own
            (fun other member => (within other member).1) filled
          have higher : ∀ other ∈ others, edit.start < other.start :=
            fun other member => Nat.lt_of_lt_of_le filled (above other member)
          obtain ⟨fits, -⟩ := (inOrder_cons_replacement filled points higher).mp inOrder
          obtain ⟨tail, -, shape⟩ := foldr_parted here points above
          have late : Whole (same.flatMap Edit.items) :=
            whole_flatMap joins leaves whole fun other member =>
              items other (List.mem_append_left others member)
          exact cuts_replacement joins leaves here begins ends new late fits (shape ▸ made) shape
      refine ⟨shape.2, fun other more suffix => ?_⟩
      rcases List.suffix_cons_iff.mp suffix with same | later
      · obtain ⟨rfl, rfl⟩ := List.cons.inj same
        exact shape.1
      · exact cuts other more later

end Whole

end Splice
