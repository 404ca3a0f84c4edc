import Mathlib.Algebra.Order.BigOperators.Group.List
import Mathlib.Algebra.Order.Ring.Nat

namespace Separated

variable {α : Type*} [DecidableEq α]

/-- Each frame is written with a separator after it. -/
def write (separator : α) (frames : List (List α)) : List α :=
  frames.flatMap (· ++ [separator])

/-- The pieces between separators, without the empty ones. -/
def read (separator : α) (text : List α) : List (List α) :=
  (text.splitOn separator).filter fun piece => !piece.isEmpty

/-- A written frame is cut at the separators inside it. -/
theorem splitOn_write (separator : α) (frames : List (List α)) :
    (write separator frames).splitOn separator =
      frames.flatMap (List.splitOn separator) ++ [[]] := by
  induction frames with
  | nil => rfl
  | cons frame rest ih =>
      have first : write separator (frame :: rest) =
          frame ++ separator :: write separator rest := by
        simp [write]
      rw [first, List.splitOn_append_cons_self, ih, List.flatMap_cons, List.append_assoc]

theorem read_write (separator : α) (frames : List (List α)) :
    read separator (write separator frames) =
      (frames.flatMap (List.splitOn separator)).filter fun piece => !piece.isEmpty := by
  rw [read, splitOn_write, List.filter_append]
  simp

/-- Frames without a separator that are not empty are read back. -/
theorem read_write_of_clean {separator : α} {frames : List (List α)}
    (clean : ∀ frame ∈ frames, separator ∉ frame) (solid : ∀ frame ∈ frames, frame ≠ []) :
    read separator (write separator frames) = frames := by
  have whole : frames.flatMap (List.splitOn separator) = frames := by
    induction frames with
    | nil => rfl
    | cons frame rest ih =>
        obtain ⟨own, others⟩ := List.forall_mem_cons.mp clean
        rw [List.flatMap_cons, List.splitOn_eq_singleton own, List.singleton_append,
          ih others (List.forall_mem_cons.mp solid).2]
  rw [read_write, whole]
  apply List.filter_eq_self.mpr
  intro frame member
  have := solid frame member
  simpa using this

/-- A text is as long as its pieces and its separators. -/
theorem length_splitOn (separator : α) (text : List α) :
    ((text.splitOn separator).map List.length).sum + text.count separator = text.length := by
  induction text with
  | nil => rfl
  | cons item rest ih =>
      rw [List.splitOn_cons_eq_if_modifyHead, List.count_cons, List.length_cons]
      by_cases same : item = separator
      · simp only [same, beq_self_eq_true, if_true, List.map_cons, List.length_nil, List.sum_cons]
        omega
      · obtain ⟨piece, more, split⟩ :=
          List.exists_cons_of_ne_nil (List.splitOn_ne_nil separator rest)
        rw [split] at ih ⊢
        simp only [beq_eq_false_iff_ne.mpr same, Bool.false_eq_true, if_false,
          List.modifyHead_cons, List.map_cons, List.length_cons, List.sum_cons] at ih ⊢
        omega

/-- The pieces of written frames are as long as the frames without the separators inside them. -/
theorem length_pieces (separator : α) (frames : List (List α)) :
    ((frames.flatMap (List.splitOn separator)).map List.length).sum +
      (frames.map (List.count separator)).sum = (frames.map List.length).sum := by
  induction frames with
  | nil => rfl
  | cons frame rest ih =>
      have own := length_splitOn separator frame
      simp only [List.flatMap_cons, List.map_append, List.sum_append, List.map_cons,
        List.sum_cons]
      omega

/-- Pieces that are as long as the frames leave no separator inside a frame. -/
theorem clean_of_length {separator : α} {frames kept : List (List α)}
    (within : kept.Sublist (frames.flatMap (List.splitOn separator)))
    (long : (kept.map List.length).sum = (frames.map List.length).sum) :
    ∀ frame ∈ frames, separator ∉ frame := by
  have whole := length_pieces separator frames
  have fewer : (kept.map List.length).sum ≤
      ((frames.flatMap (List.splitOn separator)).map List.length).sum :=
    (within.map List.length).sum_le_sum fun _ _ => Nat.zero_le _
  have none : (frames.map (List.count separator)).sum = 0 := by omega
  intro frame member
  have zero := List.sum_eq_zero_iff_forall_eq_nat.mp none _ (List.mem_map_of_mem member)
  exact List.count_eq_zero.mp zero

omit [DecidableEq α] in
/-- The pieces of a text have its items without the ones it is cut at. -/
theorem mem_splitOnP_iff {cuts : α → Bool} {item : α} {text : List α} :
    (∃ piece ∈ text.splitOnP cuts, item ∈ piece) ↔ item ∈ text ∧ cuts item = false := by
  induction text with
  | nil => simp
  | cons first rest ih =>
      obtain ⟨piece, more, split⟩ := List.exists_cons_of_ne_nil (List.splitOnP_ne_nil cuts rest)
      rw [split, List.exists_mem_cons_iff] at ih
      rw [List.splitOnP_cons_eq_if_modifyHead, split, List.mem_cons]
      cases same : cuts first with
      | true =>
          rw [if_pos rfl, List.exists_mem_cons_iff, List.exists_mem_cons_iff, ih]
          simp only [List.not_mem_nil, false_or]
          constructor
          · exact fun inside => ⟨.inr inside.1, inside.2⟩
          · rintro ⟨rfl | inside, other⟩
            · rw [same] at other
              cases other
            · exact ⟨inside, other⟩
      | false =>
          rw [if_neg Bool.false_ne_true, List.modifyHead_cons, List.exists_mem_cons_iff,
            List.mem_cons, or_assoc, ih]
          constructor
          · rintro (rfl | inside)
            · exact ⟨.inl rfl, same⟩
            · exact ⟨.inr inside.1, inside.2⟩
          · rintro ⟨here | inside, other⟩
            · exact .inl here
            · exact .inr ⟨inside, other⟩

/-- The pieces of a text have its items without the separators. -/
theorem mem_splitOn_iff {separator item : α} {text : List α} :
    (∃ piece ∈ text.splitOn separator, item ∈ piece) ↔ item ∈ text ∧ item ≠ separator := by
  have apart : ((item == separator) = false) ↔ item ≠ separator := beq_eq_false_iff_ne
  rw [← apart]
  exact mem_splitOnP_iff

omit [DecidableEq α] in
/-- Two ways to cut a text agree when they agree on its items. -/
theorem splitOnP_congr {first second : α → Bool} {text : List α}
    (agree : ∀ item ∈ text, first item = second item) :
    text.splitOnP first = text.splitOnP second := by
  induction text with
  | nil => rfl
  | cons item rest ih =>
      obtain ⟨here, later⟩ := List.forall_mem_cons.mp agree
      rw [List.splitOnP_cons_eq_if_modifyHead, List.splitOnP_cons_eq_if_modifyHead, here, ih later]

end Separated
