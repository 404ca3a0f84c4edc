import Mathlib.Data.List.Infix
import Mathlib.Data.List.TakeWhile
import SynthHiresBridge.Data.Cut

namespace Text

/-- A text of the C language ends before its first NUL. -/
def cString (text : List Char) : List Char :=
  text.takeWhile (· ≠ '\x00')

/-- SQLite compares letters without their case, and it reads the last two codes of the basic plane
as the replacement character. -/
def fold (char : Char) : Char :=
  if char = '\uFFFE' ∨ char = '\uFFFF' then '\uFFFD' else char.toLower

/-- `LIKE` reads a percent sign as any run of characters and an underscore as any character. -/
def likeChars : List Char → List Char → Bool
  | [], text => text.isEmpty
  | char :: pattern, text =>
      if char = '%' then text.tails.any (likeChars pattern)
      else match text with
        | [] => false
        | first :: rest => (char = '_' || fold char = fold first) && likeChars pattern rest

/-- The operator `LIKE` without an escape character. -/
def like (pattern text : String) : Bool :=
  likeChars (cString pattern.toList) (cString text.toList)

/-- A text has another one in it, with letters of either case. -/
def Inside (query text : String) : Prop :=
  lower query.toList <:+: lower text.toList

instance (query text : String) : Decidable (Inside query text) :=
  inferInstanceAs (Decidable (_ <:+: _))

theorem cString_eq {text : List Char} (clean : '\x00' ∉ text) : cString text = text := by
  apply List.takeWhile_eq_self_iff.mpr
  rintro char member
  exact decide_eq_true fun same => clean (same ▸ member)

theorem likeChars_nil (text : List Char) : likeChars [] text = true ↔ text = [] := by
  rw [likeChars]
  exact List.isEmpty_iff

theorem likeChars_any (pattern text : List Char) :
    likeChars ('%' :: pattern) text = true ↔ ∃ rest, rest <:+ text ∧ likeChars pattern rest = true := by
  rw [likeChars.eq_def]
  simp only [if_true, List.any_eq_true, List.mem_tails]

/-- A character other than a percent sign matches one character. -/
theorem likeChars_cons {char : Char} (percent : char ≠ '%') (pattern : List Char) (first : Char)
    (rest : List Char) : likeChars (char :: pattern) (first :: rest) = true ↔
      (char = '_' ∨ fold char = fold first) ∧ likeChars pattern rest = true := by
  rw [likeChars.eq_def]
  simp only [if_neg percent, Bool.or_eq_true, Bool.and_eq_true, decide_eq_true_eq]

theorem likeChars_short {char : Char} (percent : char ≠ '%') (pattern : List Char) :
    likeChars (char :: pattern) [] = false := by
  rw [likeChars.eq_def]
  exact if_neg percent

/-- A last percent sign leaves the rest of a text open. -/
theorem likeChars_open (text : List Char) : likeChars ['%'] text = true := by
  rw [likeChars_any]
  exact ⟨[], List.nil_suffix, (likeChars_nil []).mpr rfl⟩

/-- A pattern without wildcards matches a front of the text. -/
theorem likeChars_front {query : List Char} (plain : ∀ char ∈ query, char ≠ '%' ∧ char ≠ '_')
    (text : List Char) :
    likeChars (query ++ ['%']) text = true ↔ query.map fold <+: text.map fold := by
  induction query generalizing text with
  | nil => exact iff_of_true (likeChars_open text) List.nil_prefix
  | cons char query ih =>
      obtain ⟨percent, line⟩ := plain char List.mem_cons_self
      cases text with
      | nil =>
          rw [List.cons_append, likeChars_short percent]
          simp
      | cons first rest =>
          rw [List.cons_append, likeChars_cons percent, or_iff_right line, List.map_cons,
            List.map_cons, List.cons_prefix_cons, ih fun later member => plain later (List.mem_cons_of_mem char member)]

/-- Between two percent signs a pattern without wildcards matches a part of the text. -/
theorem likeChars_inside {query : List Char} (plain : ∀ char ∈ query, char ≠ '%' ∧ char ≠ '_')
    (text : List Char) :
    likeChars ('%' :: (query ++ ['%'])) text = true ↔ query.map fold <:+: text.map fold := by
  rw [likeChars_any, List.infix_iff_prefix_suffix]
  constructor
  · rintro ⟨rest, inside, matched⟩
    exact ⟨rest.map fold, (likeChars_front plain rest).mp matched, inside.map fold⟩
  · rintro ⟨part, front, inside⟩
    obtain ⟨rest, held, rfl⟩ := List.suffix_map_iff.mp inside
    exact ⟨rest, held, (likeChars_front plain rest).mpr front⟩

/-- The letters of a character that SQLite reads as it is. -/
theorem fold_eq_iff {char : Char} (plain : char ∉ ['\uFFFD', '\uFFFE', '\uFFFF']) (other : Char) :
    fold other = fold char ↔ other.toLower = char.toLower := by
  simp only [List.mem_cons, List.not_mem_nil, or_false, not_or] at plain
  obtain ⟨replaced, last⟩ := plain
  have kept : fold char = char.toLower := if_neg (not_or.mpr last)
  rw [kept]
  by_cases special : other = '\uFFFE' ∨ other = '\uFFFF'
  · have moved : fold other = '\uFFFD' := if_pos special
    rw [moved]
    refine iff_of_false (fun same => ?_) (fun same => ?_)
    · exact replaced (toLower_eq (by decide) same.symm)
    · rcases special with rfl | rfl
      · exact last.1 (toLower_eq (by decide) same.symm)
      · exact last.2 (toLower_eq (by decide) same.symm)
  · rw [fold, if_neg special]

/-- Two readings that agree about the characters of a query find it in the same texts. -/
theorem infix_map_congr {first second : Char → Char} {query : List Char}
    (same : ∀ char ∈ query, ∀ other, first other = first char ↔ second other = second char)
    (text : List Char) :
    query.map first <:+: text.map first ↔ query.map second <:+: text.map second := by
  have agree : ∀ part : List Char, query.map first = part.map first ↔
      query.map second = part.map second := by
    induction query with
    | nil => intro part; cases part <;> simp
    | cons char query ih =>
        intro part
        cases part with
        | nil => simp
        | cons other part =>
            simp only [List.map_cons, List.cons.injEq]
            rw [ih fun later member => same later (List.mem_cons_of_mem char member),
              eq_comm, same char List.mem_cons_self other, eq_comm]
  rw [List.infix_map_iff, List.infix_map_iff]
  simp only [agree]

/-- Without NUL characters the pattern and the text are read to their ends. -/
theorem like_solid {query text : String} (solid : '\x00' ∉ query.toList)
    (clean : '\x00' ∉ text.toList) : like ("%" ++ query ++ "%") text =
      likeChars ('%' :: (query.toList ++ ['%'])) text.toList := by
  have shape : ("%" ++ query ++ "%").toList = '%' :: (query.toList ++ ['%']) := by
    rw [String.toList_append, String.toList_append]
    rfl
  have whole : '\x00' ∉ '%' :: (query.toList ++ ['%']) := by
    simp [solid]
  rw [like, shape, cString_eq whole, cString_eq clean]

/-- A query without wildcards, NUL and characters that SQLite merges is looked for as it is. -/
theorem like_inside {query text : String}
    (plain : ∀ char ∈ query.toList, char ∉ ['%', '_', '\x00', '\uFFFD', '\uFFFE', '\uFFFF'])
    (clean : '\x00' ∉ text.toList) :
    like ("%" ++ query ++ "%") text = true ↔ Inside query text := by
  have solid : '\x00' ∉ query.toList := fun member => plain _ member (by decide)
  rw [like_solid solid clean, likeChars_inside, Inside, lower, lower]
  · refine infix_map_congr (fun char member other => fold_eq_iff (fun inside => ?_) other) text.toList
    exact plain char member (List.mem_append_right ['%', '_', '\x00'] inside)
  · intro char member
    exact ⟨fun same => plain char member (by simp [same]), fun same => plain char member (by simp [same])⟩

example : like "%100%%" "1000 things" = true := by decide

end Text
