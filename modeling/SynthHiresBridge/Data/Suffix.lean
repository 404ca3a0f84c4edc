import Mathlib.Data.List.Infix

namespace Suffix

variable {α : Type*}

/-- Items are dropped from the front until the rest fits, and the last item stays. -/
def trim (fits : List α → Prop) [DecidablePred fits] : List α → List α
  | [] => []
  | [last] => [last]
  | first :: second :: rest =>
      if fits (first :: second :: rest) then first :: second :: rest else trim fits (second :: rest)

/-- A list that fits still fits after its first item is gone. -/
def Hereditary (fits : List α → Prop) : Prop :=
  ∀ first rest, fits (first :: rest) → fits rest

/-- The longest suffix that fits ends with every other suffix that fits. -/
structure Longest (fits : List α → Prop) (items kept : List α) : Prop where
  suffix : kept <:+ items
  fitting : fits kept
  longest : ∀ other, other <:+ items → fits other → other <:+ kept

theorem Hereditary.suffix {fits : List α → Prop} (hereditary : Hereditary fits)
    {short long : List α} (inside : short <:+ long) (fitting : fits long) : fits short := by
  obtain ⟨front, rfl⟩ := inside
  induction front with
  | nil => exact fitting
  | cons first rest ih => exact ih (hereditary first _ fitting)

/-- A suffix has an item of a list without repetitions exactly when it has all later items. -/
theorem mem_iff_cons_suffix {before after kept : List α} {item : α}
    (distinct : (before ++ item :: after).Nodup) (inside : kept <:+ before ++ item :: after) :
    item ∈ kept ↔ item :: after <:+ kept := by
  constructor
  · intro member
    rcases List.suffix_or_suffix_of_suffix (List.suffix_append before (item :: after)) inside with
      covers | short
    · exact covers
    · rcases List.suffix_cons_iff.mp short with whole | later
      · rw [whole]
      · have once := (List.nodup_append.mp distinct).2.1
        exact absurd (later.subset member) (List.nodup_cons.mp once).1
  · exact fun covers => covers.subset (by simp)

theorem Longest.of_same {fits other : List α → Prop} {items kept : List α}
    (same : ∀ short, short <:+ items → (fits short ↔ other short))
    (best : Longest fits items kept) : Longest other items kept := by
  refine ⟨best.suffix, (same kept best.suffix).mp best.fitting, fun short inside small => ?_⟩
  exact best.longest short inside ((same short inside).mpr small)

theorem Longest.congr {fits other : List α → Prop} {items kept : List α}
    (same : ∀ short, short <:+ items → (fits short ↔ other short)) :
    Longest fits items kept ↔ Longest other items kept := by
  constructor
  · exact Longest.of_same same
  · exact Longest.of_same fun short inside => (same short inside).symm

/-- Every suffix of a list with a last item has that item, or it is empty. -/
theorem suffix_concat_cases {items short : List α} {last : α} (inside : short <:+ items ++ [last]) :
    short = [] ∨ ∃ front, short = front ++ [last] ∧ front <:+ items := by
  rcases List.eq_nil_or_concat short with rfl | ⟨front, item, rfl⟩
  · exact .inl rfl
  · rw [List.concat_eq_append] at inside ⊢
    obtain ⟨before, same⟩ := inside
    rw [← List.append_assoc] at same
    obtain ⟨split, single⟩ := List.append_inj' same rfl
    obtain rfl : item = last := by simpa using single
    exact .inr ⟨front, rfl, ⟨before, split⟩⟩

section Trim

variable (fits : List α → Prop) [DecidablePred fits]

@[simp] theorem trim_singleton (last : α) : trim fits [last] = [last] := rfl

theorem trim_cons (first : α) (rest : List α) (more : rest ≠ []) :
    trim fits (first :: rest) = if fits (first :: rest) then first :: rest else trim fits rest := by
  cases rest with
  | nil => exact absurd rfl more
  | cons second rest => rfl

theorem trim_suffix (items : List α) : trim fits items <:+ items := by
  induction items with
  | nil => exact List.suffix_rfl
  | cons first rest ih =>
      by_cases more : rest = []
      · subst more
        exact List.suffix_rfl
      · rw [trim_cons fits first rest more]
        split
        · exact List.suffix_rfl
        · exact ih.trans (List.suffix_cons first rest)

/-- The last item is never dropped. -/
theorem trim_concat (items : List α) (last : α) :
    ∃ kept, trim fits (items ++ [last]) = kept ++ [last] ∧ kept <:+ items := by
  induction items with
  | nil => exact ⟨[], rfl, List.suffix_rfl⟩
  | cons first rest ih =>
      rw [List.cons_append, trim_cons fits first _ (by simp)]
      split
      · exact ⟨first :: rest, rfl, List.suffix_rfl⟩
      · obtain ⟨kept, same, inside⟩ := ih
        exact ⟨kept, same, inside.trans (List.suffix_cons first rest)⟩

/-- What stays fits, or it is the last item alone. -/
theorem trim_fits (items : List α) (last : α) :
    fits (trim fits (items ++ [last])) ∨ trim fits (items ++ [last]) = [last] := by
  induction items with
  | nil => exact .inr rfl
  | cons first rest ih =>
      rw [List.cons_append, trim_cons fits first _ (by simp)]
      split
      · rename_i fitting
        exact .inl fitting
      · exact ih

/-- Every suffix that fits and holds the last item stays. -/
theorem trim_longest (items short : List α) (last : α)
    (inside : short <:+ items ++ [last]) (fitting : fits short) :
    short <:+ trim fits (items ++ [last]) := by
  induction items with
  | nil => simpa using inside
  | cons first rest ih =>
      rw [List.cons_append, trim_cons fits first _ (by simp)]
      split
      · exact inside
      · rename_i loose
        rcases List.suffix_cons_iff.mp inside with whole | inside
        · rw [whole] at fitting
          exact absurd fitting loose
        · exact ih inside

/-- An item stays exactly when it and all later items fit. -/
theorem cons_suffix_trim_iff (hereditary : Hereditary fits) (before after : List α) (item last : α) :
    item :: (after ++ [last]) <:+ trim fits (before ++ item :: (after ++ [last])) ↔
      fits (item :: (after ++ [last])) := by
  have shape : before ++ item :: (after ++ [last]) = (before ++ item :: after) ++ [last] := by simp
  rw [shape]
  constructor
  · intro inside
    rcases trim_fits fits (before ++ item :: after) last with fitting | alone
    · exact hereditary.suffix inside fitting
    · rw [alone] at inside
      have long := inside.length_le
      simp at long
  · intro fitting
    refine trim_longest fits _ _ _ ?_ fitting
    rw [← shape]
    exact List.suffix_append before _

/-- Trimming by one rule gives the longest suffix of a looser one exactly when all longer suffixes
that meet the looser rule meet the first one. -/
theorem longest_trim_iff (hereditary : Hereditary fits) (loose : List α → Prop)
    (items : List α) (last : α) (alone : loose [last])
    (looser : ∀ other, other <:+ items ++ [last] → fits other → loose other) :
    Longest loose (items ++ [last]) (trim fits (items ++ [last])) ↔
      ∀ other, other <:+ items ++ [last] → loose other → fits other ∨ other.length ≤ 1 := by
  constructor
  · intro best other inside small
    have kept := best.longest other inside small
    rcases trim_fits fits items last with fitting | single
    · exact .inl (hereditary.suffix kept fitting)
    · rw [single] at kept
      exact .inr kept.length_le
  · intro every
    refine ⟨trim_suffix fits _, ?_, ?_⟩
    · rcases trim_fits fits items last with fitting | single
      · exact looser _ (trim_suffix fits _) fitting
      · rw [single]
        exact alone
    · intro other inside small
      rcases every other inside small with fitting | short
      · exact trim_longest fits items other last inside fitting
      · obtain ⟨front, same, -⟩ := trim_concat fits items last
        rw [same]
        rcases suffix_concat_cases inside with rfl | ⟨before, rfl, -⟩
        · exact List.nil_suffix
        · obtain rfl : before = [] := by simpa using short
          exact List.suffix_append front [last]

end Trim

/-- A list that is cut to its last items before one more is added has the last items after it. -/
theorem drop_concat {limit : Nat} (positive : 1 ≤ limit) (items : List α) (item : α) :
    (if (items.drop (items.length - limit)).length ≥ limit then
        (items.drop (items.length - limit)).drop 1
      else items.drop (items.length - limit)) ++ [item] =
      (items ++ [item]).drop (items.length + 1 - limit) := by
  rw [List.length_drop]
  by_cases full : limit ≤ items.length
  · have next : items.length - limit + 1 = items.length + 1 - limit := by omega
    rw [if_pos (by omega), List.drop_drop, next, List.drop_append_of_le_length (by omega)]
  · rw [if_neg (by omega), Nat.sub_eq_zero_of_le (by omega), Nat.sub_eq_zero_of_le (by omega),
      List.drop_zero, List.drop_zero]

end Suffix
