import Mathlib.Data.List.Basic

namespace NumberedLines

variable {α Id : Type*}

/-- Lines that are numbered after a count. -/
def lines (line : Nat → α → String) : Nat → List α → String
  | _, [] => ""
  | count, item :: rest => line (count + 1) item ++ "\n" ++ lines line (count + 1) rest

theorem length_lines_cons (line : Nat → α → String) (count : Nat) (item : α) (rest : List α) :
    (lines line (count + 1) rest).length < (lines line count (item :: rest)).length := by
  have one : "\n".length = 1 := rfl
  rw [lines, String.length_append, String.length_append, one]
  omega

/-- Of the fronts of a list, each has its own lines. -/
theorem eq_of_lines {line : Nat → α → String} {count : Nat} {first second all : List α}
    (one : first <+: all) (two : second <+: all)
    (same : lines line count first = lines line count second) : first = second := by
  induction first generalizing second all count with
  | nil =>
      cases second with
      | nil => rfl
      | cons item rest =>
          have longer := length_lines_cons line count item rest
          rw [← same] at longer
          exact absurd longer (Nat.not_lt_zero _)
  | cons item rest ih =>
      cases second with
      | nil =>
          have longer := length_lines_cons line count item rest
          rw [same] at longer
          exact absurd longer (Nat.not_lt_zero _)
      | cons other more =>
          obtain ⟨after, rfl⟩ := one
          obtain ⟨rfl, behind⟩ := List.cons_prefix_cons.mp two
          rw [lines, lines, String.append_right_inj] at same
          rw [ih (List.prefix_append rest after) behind same]

theorem length_take_lt_iff (limit : Nat) (list : List α) :
    (list.take limit).length < list.length ↔ limit < list.length := by
  rw [List.length_take]
  omega

/-- A text shows the first of the items that are wanted, one line for each, a number resolves to
the identity of its item, and the flag tells whether any is left out. -/
def Honest (line : Nat → α → String) (identity : α → Option Id) (wanted : List α) (text : String)
    (resolve : Int → Option Id) (truncated : Bool) : Prop :=
  ∃ shown : List α, shown <+: wanted ∧ text = lines line 0 shown ∧
    (∀ ref : Int, resolve ref =
      if 0 < ref then shown[(ref - 1).toNat]?.bind identity else none) ∧
    (truncated = true ↔ shown ≠ wanted)

/-- What is shown is known from the text, so only the flag is in question. -/
theorem honest_iff {line : Nat → α → String} {identity : α → Option Id} {wanted shown : List α}
    {text : String} {resolve : Int → Option Id} {truncated : Bool} (front : shown <+: wanted)
    (spelled : text = lines line 0 shown)
    (resolves : ∀ ref : Int, resolve ref =
      if 0 < ref then shown[(ref - 1).toNat]?.bind identity else none) :
    Honest line identity wanted text resolve truncated ↔
      (truncated = true ↔ shown.length < wanted.length) := by
  have short : shown ≠ wanted ↔ shown.length < wanted.length := by
    constructor
    · intro other
      apply Nat.lt_of_le_of_ne front.length_le
      exact fun same => other (front.eq_of_length same)
    · rintro less rfl
      exact Nat.lt_irrefl _ less
  rw [← short]
  constructor
  · rintro ⟨other, begins, written, _, flag⟩
    rwa [eq_of_lines front begins (spelled.symm.trans written)]
  · exact fun flag => ⟨shown, front, spelled, resolves, flag⟩

end NumberedLines
