import Mathlib.Data.List.TakeWhile
import Mathlib.Order.PiLex
import SynthHiresBridge.Daemon.Autoupdate
import SynthHiresBridge.Data.Fallible
import SynthHiresBridge.Data.Separated

namespace Daemon

/-- The digits of a number that fits 64 bits. -/
structure Numeral (text : List Char) (number : Nat) : Prop where
  filled : text ≠ []
  digits : ∀ char ∈ text, char.isDigit = true
  value : text.foldl (fun value digit => 10 * value + (digit.toNat - 48)) 0 = number
  bounded : number < UInt64.size

/-- A version is a dotted list of numbers, after one `v` at most and before what a dash or a plus
begins. -/
def Numbered (version : String) (numbers : List Nat) : Prop :=
  ∃ lead core rest, version.toList = lead ++ (core ++ rest) ∧ (lead = [] ∨ lead = ['v']) ∧
    (∀ char ∈ rest.head?, char = '-' ∨ char = '+') ∧
    List.Forall₂ Numeral (core.splitOn '.') numbers

/-- The numbers of a version go on with zeros, and the first that differs decides. -/
def padded (numbers : List Nat) : Lex (Nat → Nat) :=
  toLex fun place => numbers.getD place 0

/-- Two versions of which neither is newer. -/
def Level (newer : String → String → Bool) (own next : String) : Prop :=
  newer own next = false ∧ newer next own = false

/-- A comparison of versions is closed to all other texts, and on versions it is the order of the
padded numbers, which is a strict weak order. -/
structure OrdersVersions (newer : String → String → Bool) : Prop where
  closed : ∀ own next, (∀ numbers, ¬ Numbered own numbers) ∨ (∀ numbers, ¬ Numbered next numbers) →
    newer own next = false
  lexicographic : ∀ {own next first second}, Numbered own first → Numbered next second →
    (newer own next = true ↔ padded first < padded second)
  irreflexive : ∀ own, newer own own = false
  asymmetric : ∀ {own next}, newer own next = true → newer next own = false
  transitive : ∀ {first second third}, newer first second = true → newer second third = true →
    newer first third = true
  level : ∀ {first second third one two three}, Numbered first one → Numbered second two →
    Numbered third three → Level newer first second → Level newer second third →
    Level newer first third

section Parts

theorem parseU64_plusless {text : List Char} (plusless : '+' ∉ text) :
    parseU64 (String.ofList text) =
      if text ≠ [] ∧ text.all Char.isDigit then
        if text.foldl (fun value digit => 10 * value + (digit.toNat - 48)) 0 < UInt64.size then
          some (text.foldl (fun value digit => 10 * value + (digit.toNat - 48)) 0)
        else none
      else none := by
  rw [parseU64, String.toList_ofList]
  split
  · exact absurd List.mem_cons_self plusless
  · rfl

theorem parseU64_iff {text : List Char} (plusless : '+' ∉ text) {number : Nat} :
    parseU64 (String.ofList text) = some number ↔ Numeral text number := by
  rw [parseU64_plusless plusless]
  by_cases numeral : text ≠ [] ∧ text.all Char.isDigit = true
  · rw [if_pos numeral]
    by_cases fits : text.foldl (fun value digit => 10 * value + (digit.toNat - 48)) 0 < UInt64.size
    · rw [if_pos fits, Option.some.injEq]
      constructor
      · rintro rfl
        exact ⟨numeral.1, List.all_eq_true.mp numeral.2, rfl, fits⟩
      · exact Numeral.value
    · rw [if_neg fits]
      refine iff_of_false nofun ?_
      rintro ⟨-, -, rfl, bounded⟩
      exact fits bounded
  · rw [if_neg numeral]
    exact iff_of_false nofun fun own => numeral ⟨own.filled, List.all_eq_true.mpr own.digits⟩

theorem plusless_piece {core piece : List Char} (plusless : '+' ∉ core)
    (member : piece ∈ core.splitOn '.') : '+' ∉ piece := by
  intro inside
  exact plusless (Separated.mem_splitOn_iff.mp ⟨piece, member, inside⟩).1

theorem parts_iff {core : List Char} (plusless : '+' ∉ core) {numbers : List Nat} :
    (Text.split (String.ofList core) (· == '.')).mapM parseU64 = some numbers ↔
      List.Forall₂ Numeral (core.splitOn '.') numbers := by
  have plain : ∀ piece ∈ core.splitOn '.', '+' ∉ piece := fun _ => plusless_piece plusless
  rw [Text.split, String.toList_ofList, Option.mapM_list_iff, List.forall₂_map_left_iff]
  constructor
  · intro read
    have each := (List.forall₂_and_left _ _).mpr ⟨plain, read⟩
    exact each.imp fun _ _ both => (parseU64_iff both.1).mp both.2
  · intro numerals
    have each := (List.forall₂_and_left _ _).mpr ⟨plain, numerals⟩
    exact each.imp fun _ _ both => (parseU64_iff both.1).mpr both.2

/-- A core of numbers has digits and dots. -/
theorem core_plain {core : List Char} {numbers : List Nat}
    (numerals : List.Forall₂ Numeral (core.splitOn '.') numbers) :
    (∀ char ∈ core, char.isDigit = true ∨ char = '.') ∧
      ∃ first more, core = first :: more ∧ first.isDigit = true := by
  have each : List.Forall₂ (fun piece number =>
      (piece ≠ [] ∧ ∀ char ∈ piece, char.isDigit = true) ∧ Numeral piece number)
      (core.splitOn '.') numbers :=
    numerals.imp fun _ _ numeral => ⟨⟨numeral.filled, numeral.digits⟩, numeral⟩
  have pieces := ((List.forall₂_and_left _ _).mp each).1
  constructor
  · intro char member
    by_cases dot : char = '.'
    · exact .inr dot
    · obtain ⟨piece, listed, inside⟩ := Separated.mem_splitOn_iff.mpr ⟨member, dot⟩
      exact .inl ((pieces piece listed).2 char inside)
  · cases core with
    | nil => exact absurd rfl (pieces [] (by simp)).1
    | cons first more =>
        refine ⟨first, more, rfl, ?_⟩
        by_contra other
        have dot : first = '.' := by
          by_contra letter
          obtain ⟨piece, listed, inside⟩ :=
            Separated.mem_splitOn_iff.mpr ⟨List.mem_cons_self, letter⟩
          exact other ((pieces piece listed).2 first inside)
        have split : [] ∈ (first :: more).splitOn '.' := by
          rw [dot, List.splitOn, List.splitOnP_cons_eq_if_modifyHead]
          exact List.mem_cons_self
        exact (pieces [] split).1 rfl

/-- One `v` is taken from a version before its core is cut out. -/
theorem versionParts_stripped (version : String) : ∃ lead stripped,
    version.toList = lead ++ stripped ∧
    (lead = [] ∧ (∀ rest, version.toList ≠ 'v' :: rest) ∨ lead = ['v']) ∧
    versionParts version = (Text.split (String.ofList (stripped.takeWhile fun char =>
      char ≠ '-' ∧ char ≠ '+')) (· == '.')).mapM parseU64 := by
  rw [versionParts]
  split
  · rename_i rest text
    exact ⟨['v'], rest, text, .inr rfl, rfl⟩
  · rename_i other
    exact ⟨[], version.toList, rfl, .inl ⟨rfl, other⟩, rfl⟩

/-- The numbers of a version are read just where it has them. -/
theorem versionParts_iff {version : String} {numbers : List Nat} :
    versionParts version = some numbers ↔ Numbered version numbers := by
  obtain ⟨lead, stripped, text, kind, read⟩ := versionParts_stripped version
  have plusless : '+' ∉ stripped.takeWhile fun char => char ≠ '-' ∧ char ≠ '+' := by
    intro member
    have kept := List.mem_takeWhile_imp member
    simp at kept
  rw [read, parts_iff plusless]
  constructor
  · intro numerals
    refine ⟨lead, _, stripped.dropWhile fun char => char ≠ '-' ∧ char ≠ '+', ?_,
      kind.imp_left And.left, ?_, numerals⟩
    · rw [List.takeWhile_append_dropWhile]
      exact text
    · intro char member
      have stops := List.head?_dropWhile_not (fun char => decide (char ≠ '-' ∧ char ≠ '+')) stripped
      rw [Option.mem_def.mp member] at stops
      have ends : ¬ (char ≠ '-' ∧ char ≠ '+') := by simpa using stops
      exact (not_and_or.mp ends).imp not_not.mp not_not.mp
  · rintro ⟨front, core, rest, cut, leads, stops, numerals⟩
    obtain ⟨plain, first, more, begins, digit⟩ := core_plain numerals
    have same : stripped = core ++ rest := by
      rw [text] at cut
      rcases kind with ⟨rfl, other⟩ | rfl
      · rcases leads with rfl | rfl
        · exact cut
        · rw [text] at other
          exact absurd cut (other _)
      · rcases leads with rfl | rfl
        · rw [begins] at cut
          obtain rfl := (List.cons.inj cut).1
          exact absurd digit (by decide)
        · exact (List.cons.inj cut).2
    have inside : ∀ char ∈ core, decide (char ≠ '-' ∧ char ≠ '+') = true := by
      intro char member
      rw [decide_eq_true_iff]
      constructor
      · rintro rfl
        exact absurd (plain '-' member) (by decide)
      · rintro rfl
        exact absurd (plain '+' member) (by decide)
    have ends : rest.takeWhile (fun char => char ≠ '-' ∧ char ≠ '+') = [] := by
      cases rest with
      | nil => rfl
      | cons char rest =>
          rcases stops char rfl with rfl | rfl
          · exact List.takeWhile_cons_of_neg (by decide)
          · exact List.takeWhile_cons_of_neg (by decide)
    rw [same, List.takeWhile_append_of_pos inside, ends, List.append_nil]
    exact numerals

end Parts

section Padded

theorem padded_lt_iff {own next : List Nat} : padded own < padded next ↔
    ∃ place, (∀ before < place, own.getD before 0 = next.getD before 0) ∧
      own.getD place 0 < next.getD place 0 := Iff.rfl

theorem newerParts_iff {own next : List Nat} :
    newerParts own next = true ↔ padded own < padded next := by
  rw [newerParts, padded_lt_iff]
  have beyond : ∀ place, max own.length next.length ≤ place →
      own.getD place 0 = next.getD place 0 := by
    intro place far
    rw [List.getD_eq_getElem?_getD, List.getD_eq_getElem?_getD,
      List.getElem?_eq_none (le_of_max_le_left far), List.getElem?_eq_none (le_of_max_le_right far)]
  cases first : (List.range (max own.length next.length)).find? fun i =>
      own.getD i 0 ≠ next.getD i 0 with
  | none =>
      refine iff_of_false nofun ?_
      rintro ⟨place, -, less⟩
      by_cases inside : place < max own.length next.length
      · have same := List.find?_eq_none.mp first place (List.mem_range.mpr inside)
        rw [decide_eq_true_iff, not_not] at same
        omega
      · have same := beyond place (Nat.le_of_not_lt inside)
        omega
  | some place =>
      rw [List.find?_range_eq_some] at first
      obtain ⟨differs, inside, before⟩ := first
      have other := decide_eq_true_iff.mp differs
      have same : ∀ j < place, own.getD j 0 = next.getD j 0 := by
        intro j earlier
        have equal := before j earlier
        simpa using equal
      constructor
      · intro less
        exact ⟨place, same, of_decide_eq_true less⟩
      · rintro ⟨spot, equal, less⟩
        have here : spot = place := by
          rcases Nat.lt_trichotomy spot place with earlier | here | later
          · have level := same spot earlier
            omega
          · exact here
          · exact absurd (equal place later) other
        rw [here] at less
        exact decide_eq_true less

/-- Two lists of numbers of which neither is before the other are one sequence. -/
theorem padded_eq_iff {own next : List Nat} :
    newerParts own next = false ∧ newerParts next own = false ↔ padded own = padded next := by
  rw [← Bool.not_eq_true, ← Bool.not_eq_true, newerParts_iff, newerParts_iff]
  constructor
  · rintro ⟨notBefore, notAfter⟩
    rcases lt_trichotomy (padded own) (padded next) with before | same | after
    · exact absurd before notBefore
    · exact same
    · exact absurd after notAfter
  · intro same
    rw [same]
    exact ⟨lt_irrefl _, lt_irrefl _⟩

end Padded

section Newer

theorem isNewerVersion_numbered {own next : String} {first second : List Nat}
    (owned : Numbered own first) (following : Numbered next second) :
    isNewerVersion own next = newerParts first second := by
  rw [isNewerVersion, versionParts_iff.mpr owned, versionParts_iff.mpr following]

/-- A newer version and the one that it is newer than have numbers. -/
theorem numbered_of_newer {own next : String} (newer : isNewerVersion own next = true) :
    ∃ first second, Numbered own first ∧ Numbered next second ∧ padded first < padded second := by
  rw [isNewerVersion] at newer
  split at newer
  · rename_i first second owned following
    exact ⟨first, second, versionParts_iff.mp owned, versionParts_iff.mp following,
      newerParts_iff.mp newer⟩
  · cases newer

theorem Numbered.unique {version : String} {first second : List Nat}
    (one : Numbered version first) (other : Numbered version second) : first = second :=
  Option.some.inj ((versionParts_iff.mpr one).symm.trans (versionParts_iff.mpr other))

end Newer

/-- The comparison of versions is closed to malformed texts, and it is the strict weak order of the
padded numbers on the others. -/
theorem isNewerVersion_orders : OrdersVersions isNewerVersion where
  closed own next malformed := by
    rw [← Bool.not_eq_true]
    intro newer
    obtain ⟨first, second, owned, following, -⟩ := numbered_of_newer newer
    rcases malformed with none | none
    · exact none first owned
    · exact none second following
  lexicographic owned following := by
    rw [isNewerVersion_numbered owned following]
    exact newerParts_iff
  irreflexive own := by
    rw [← Bool.not_eq_true]
    intro newer
    obtain ⟨first, second, owned, following, before⟩ := numbered_of_newer newer
    rw [owned.unique following] at before
    exact lt_irrefl _ before
  asymmetric newer := by
    rw [← Bool.not_eq_true]
    intro older
    obtain ⟨first, second, owned, following, before⟩ := numbered_of_newer newer
    obtain ⟨third, fourth, again, last, after⟩ := numbered_of_newer older
    rw [again.unique following, last.unique owned] at after
    exact lt_asymm before after
  transitive newer newest := by
    obtain ⟨first, second, owned, following, before⟩ := numbered_of_newer newer
    obtain ⟨third, fourth, again, last, after⟩ := numbered_of_newer newest
    rw [again.unique following] at after
    rw [isNewerVersion_numbered owned last, newerParts_iff]
    exact before.trans after
  level owned following last here there := by
    rw [Level, isNewerVersion_numbered owned following, isNewerVersion_numbered following owned,
      padded_eq_iff] at here
    rw [Level, isNewerVersion_numbered following last, isNewerVersion_numbered last following,
      padded_eq_iff] at there
    rw [Level, isNewerVersion_numbered owned last, isNewerVersion_numbered last owned, padded_eq_iff]
    exact here.trans there

example : isNewerVersion "0.1.9" "v0.1.21-rc1" = true := by decide

end Daemon
