import SynthHiresBridge.Daemon.LspOps
import SynthHiresBridge.Data.Lines
import Mathlib.Algebra.GroupWithZero.Nat

namespace Daemon.LspOps

/-- The number of UTF-16 units of a text. -/
def width (chars : List Char) : Nat := (chars.map utf16Size).sum

theorem utf16Size_pos (char : Char) : 1 ≤ utf16Size char := by
  unfold utf16Size
  split_ifs
  · exact Nat.le_refl 1
  · exact Nat.le_succ 1

theorem utf16Size_le_two (char : Char) : utf16Size char ≤ 2 := by
  unfold utf16Size
  split_ifs
  · exact Nat.le_succ 1
  · exact Nat.le_refl 2

@[simp] theorem width_nil : width [] = 0 := rfl

@[simp] theorem width_cons (char : Char) (rest : List Char) :
    width (char :: rest) = utf16Size char + width rest := rfl

theorem width_append (front rest : List Char) : width (front ++ rest) = width front + width rest := by
  rw [width, List.map_append, List.sum_append]
  rfl

@[simp] theorem byteLength_nil : byteLength [] = 0 := rfl

theorem byteLength_cons (char : Char) (rest : List Char) :
    byteLength (char :: rest) = char.utf8Size + byteLength rest := by
  rw [byteLength, List.flatMap_cons, List.length_append, String.length_utf8EncodeChar, byteLength]

theorem byteLength_append (front rest : List Char) :
    byteLength (front ++ rest) = byteLength front + byteLength rest := by
  rw [byteLength, List.flatMap_append, List.length_append]
  rfl

/-- A column is past the end of a text or inside one of its characters. -/
theorem column_cases (column : Nat) (chars : List Char) :
    width chars ≤ column ∨ ∃ front char rest, chars = front ++ char :: rest ∧
      width front ≤ column ∧ column < width front + utf16Size char := by
  induction chars generalizing column with
  | nil => exact .inl (Nat.zero_le column)
  | cons char rest ih =>
      by_cases here : column < utf16Size char
      · exact .inr ⟨[], char, rest, rfl, Nat.zero_le column, by rwa [width_nil, Nat.zero_add]⟩
      · rcases ih (column - utf16Size char) with past | ⟨front, other, more, rfl, above, below⟩
        · left
          rw [width_cons]
          omega
        · right
          refine ⟨char :: front, other, more, rfl, ?_, ?_⟩
          · rw [width_cons]
            omega
          · rw [width_cons]
            omega

/-- The search passes every character before its column. -/
theorem utf16ToByteOffset_append {column count offset : Nat} {front : List Char}
    (before : count + width front ≤ column) (rest : List Char) :
    utf16ToByteOffset column count offset (front ++ rest) =
      utf16ToByteOffset column (count + width front) (offset + byteLength front) rest := by
  induction front generalizing count offset with
  | nil => rfl
  | cons char front ih =>
      have size := utf16Size_pos char
      rw [width_cons] at before
      rw [List.cons_append, utf16ToByteOffset, if_neg (by omega), if_neg (by omega),
        ih (by omega), width_cons, byteLength_cons, Nat.add_assoc, Nat.add_assoc]

/-- The search ends behind a text whose columns all come before it. -/
theorem utf16ToByteOffset_past {column : Nat} {chars : List Char} (past : width chars ≤ column) :
    utf16ToByteOffset column 0 0 chars = byteLength chars := by
  have before : 0 + width chars ≤ column := by rwa [Nat.zero_add]
  conv_lhs => rw [← List.append_nil chars]
  rw [utf16ToByteOffset_append before, utf16ToByteOffset, Nat.zero_add]

/-- A column between two characters gives the byte between them. -/
theorem utf16ToByteOffset_between (front rest : List Char) :
    utf16ToByteOffset (width front) 0 0 (front ++ rest) = byteLength front := by
  rw [utf16ToByteOffset_append (by rw [Nat.zero_add]), Nat.zero_add, Nat.zero_add]
  cases rest with
  | nil => rfl
  | cons char rest => rw [utf16ToByteOffset, if_pos (Nat.le_refl _)]

/-- A column inside a character gives its end. -/
theorem utf16ToByteOffset_inside {column : Nat} {front : List Char} {char : Char}
    (above : width front < column) (below : column < width front + utf16Size char)
    (rest : List Char) :
    utf16ToByteOffset column 0 0 (front ++ char :: rest) = byteLength (front ++ [char]) := by
  rw [utf16ToByteOffset_append (by omega), Nat.zero_add, Nat.zero_add, utf16ToByteOffset,
    if_neg (by omega), if_pos below, byteLength_append, byteLength_cons, byteLength_nil,
    Nat.add_zero]

theorem le_utf16ToByteOffset (column count offset : Nat) (chars : List Char) :
    offset ≤ utf16ToByteOffset column count offset chars := by
  induction chars generalizing count offset with
  | nil => exact Nat.le_refl offset
  | cons char rest ih =>
      rw [utf16ToByteOffset]
      split_ifs
      · exact Nat.le_refl offset
      · exact Nat.le_add_right _ _
      · exact (Nat.le_add_right _ _).trans (ih _ _)

/-- A column behind a text lies behind the next character too. -/
theorem byteLength_lt_utf16ToByteOffset {column : Nat} {front rest : List Char}
    (behind : width front < column) (more : rest ≠ []) :
    byteLength front < utf16ToByteOffset column 0 0 (front ++ rest) := by
  obtain ⟨char, rest, rfl⟩ := List.exists_cons_of_ne_nil more
  have size := char.utf8Size_pos
  rw [utf16ToByteOffset_append (by omega), Nat.zero_add, Nat.zero_add, utf16ToByteOffset,
    if_neg (Nat.not_le.mpr behind)]
  split_ifs
  · omega
  · have least := le_utf16ToByteOffset column (width front + utf16Size char)
      (byteLength front + char.utf8Size) rest
    omega

theorem utf16ToByteOffset_boundary (column : Nat) (chars : List Char) :
    ∃ front rest, chars = front ++ rest ∧ utf16ToByteOffset column 0 0 chars = byteLength front := by
  rcases column_cases column chars with past | ⟨front, char, rest, rfl, above, below⟩
  · exact ⟨chars, [], (List.append_nil chars).symm, utf16ToByteOffset_past past⟩
  · rcases Nat.eq_or_lt_of_le above with rfl | inside
    · exact ⟨front, char :: rest, rfl, utf16ToByteOffset_between front (char :: rest)⟩
    · exact ⟨front ++ [char], rest, by simp, utf16ToByteOffset_inside inside below rest⟩

/-- A line of a source with its terminator. -/
def lineAt (source : String) (line : Nat) : Option (List Char) :=
  (Text.splitInclusive source.toList)[line]?

/-- The bytes before a line. -/
def lineStart (source : String) (line : Nat) : Nat :=
  byteLength ((Text.splitInclusive source.toList).take line).flatten

theorem linecolFrom_eq (character offset line : Nat) (lines : List (List Char)) :
    linecolFrom character offset line lines = match lines[line]? with
      | none => offset + byteLength lines.flatten
      | some text => offset + byteLength (lines.take line).flatten +
          utf16ToByteOffset character 0 0 text := by
  induction lines generalizing offset line with
  | nil => cases line <;> rfl
  | cons text rest ih =>
      cases line with
      | zero => rfl
      | succ line =>
          rw [linecolFrom, ih]
          simp only [List.getElem?_cons_succ, List.flatten_cons, List.take_succ_cons,
            byteLength_append, Nat.add_assoc]

/-- A position is counted from its line, and a missing line stands at the end. -/
theorem linecolToByte_eq (source : String) (line character : Nat) :
    linecolToByte source line character = match lineAt source line with
      | none => byteLength source.toList
      | some text => lineStart source line + utf16ToByteOffset character 0 0 text := by
  have whole : (Text.splitInclusive source.toList).flatten = source.toList := by
    rw [Text.splitInclusive_eq, Lines.flatten_pieces]
  rw [linecolToByte, linecolFrom_eq, whole, Nat.zero_add, Nat.zero_add]
  rfl

/-- A line is its text and a terminator, which is missing at the end of a source only. -/
theorem terminator (text : List Char) : ∃ ending, text = Text.unterminated text ++ ending ∧
    (ending = [] ↔ text.getLast? ≠ some '\n') := by
  rw [Text.unterminated, Text.stripLast]
  by_cases ended : text.getLast? = some '\n'
  · obtain ⟨front, rfl⟩ := List.getLast?_eq_some_iff.mp ended
    simp only [if_pos ended, List.dropLast_concat, Text.stripLast]
    split_ifs with carried
    · obtain ⟨line, rfl⟩ := List.getLast?_eq_some_iff.mp carried
      exact ⟨['\r', '\n'], by simp, iff_of_false (List.cons_ne_nil _ _) fun other => other ended⟩
    · exact ⟨['\n'], rfl, iff_of_false (List.cons_ne_nil _ _) fun other => other ended⟩
  · rw [if_neg ended]
    exact ⟨[], (List.append_nil text).symm, iff_of_true rfl ended⟩

/-- The byte of a position as the protocol defines it: a column behind a line stands at the end of
its text. -/
def lspOffset (source : String) (line character : Nat) : Nat :=
  match lineAt source line with
  | none => byteLength source.toList
  | some text => lineStart source line + utf16ToByteOffset character 0 0 (Text.unterminated text)

/-- A column does not lie behind the text of a line with a terminator. -/
def InLine (source : String) (line character : Nat) : Prop :=
  ∀ text ∈ lineAt source line, text.getLast? = some '\n' →
    character ≤ width (Text.unterminated text)

/-- A search inside the text of a line does not see its terminator. -/
theorem utf16ToByteOffset_unterminated {column : Nat} {front ending : List Char}
    (inside : column ≤ width front) : utf16ToByteOffset column 0 0 (front ++ ending) =
      utf16ToByteOffset column 0 0 front := by
  rcases Nat.eq_or_lt_of_le inside with rfl | inside
  · rw [utf16ToByteOffset_between, utf16ToByteOffset_past (Nat.le_refl _)]
  · rcases column_cases column front with past | ⟨upper, char, rest, rfl, above, below⟩
    · exact absurd inside (Nat.not_lt.mpr past)
    · rw [List.append_assoc, List.cons_append]
      rcases Nat.eq_or_lt_of_le above with rfl | above
      · rw [utf16ToByteOffset_between, utf16ToByteOffset_between]
      · rw [utf16ToByteOffset_inside above below, utf16ToByteOffset_inside above below]

/-- A position is converted as the protocol defines it exactly where its column is in its line. -/
theorem linecolToByte_eq_lspOffset_iff (source : String) (line character : Nat) :
    linecolToByte source line character = lspOffset source line character ↔
      InLine source line character := by
  rw [linecolToByte_eq, lspOffset, InLine]
  cases lineAt source line with
  | none => exact iff_of_true rfl nofun
  | some text =>
      obtain ⟨ending, same, closed⟩ := terminator text
      simp only [Option.mem_def, Option.some.injEq, forall_eq', Nat.add_left_cancel_iff]
      constructor
      · intro equal ended
        by_contra behind
        have past := Nat.not_le.mp behind
        have more : ending ≠ [] := fun none => closed.mp none ended
        rw [utf16ToByteOffset_past (Nat.le_of_lt past)] at equal
        have beyond := byteLength_lt_utf16ToByteOffset past more
        rw [← same, equal] at beyond
        exact Nat.lt_irrefl _ beyond
      · intro inside
        by_cases ended : text.getLast? = some '\n'
        · conv_lhs => rw [same]
          exact utf16ToByteOffset_unterminated (inside ended)
        · rw [closed.mpr ended, List.append_nil] at same
          rw [← same]

/-- What the protocol asks of the byte of a position: it stands between two characters, a column
between two characters of its line gives the byte between them, a column inside a character gives
one of its ends, and a column behind the line gives the end of its text. -/
structure Converts (source : String) (line character offset : Nat) : Prop where
  boundary : ∃ front rest, source.toList = front ++ rest ∧ offset = byteLength front
  between : ∀ text ∈ lineAt source line, ∀ front rest,
    Text.unterminated text = front ++ rest → character = width front →
      offset = lineStart source line + byteLength front
  inside : ∀ text ∈ lineAt source line, ∀ front char rest,
    Text.unterminated text = front ++ char :: rest → width front < character →
      character < width (front ++ [char]) →
        offset = lineStart source line + byteLength front ∨
          offset = lineStart source line + byteLength (front ++ [char])
  behind : ∀ text ∈ lineAt source line, width (Text.unterminated text) < character →
    offset = lineStart source line + byteLength (Text.unterminated text)

theorem lineAt_split {source : String} {line : Nat} {text : List Char}
    (found : lineAt source line = some text) : ∃ rest, source.toList =
      ((Text.splitInclusive source.toList).take line).flatten ++ text ++ rest := by
  have whole : (Text.splitInclusive source.toList).flatten = source.toList := by
    rw [Text.splitInclusive_eq, Lines.flatten_pieces]
  obtain ⟨inside, same⟩ := List.getElem?_eq_some_iff.mp found
  refine ⟨((Text.splitInclusive source.toList).drop (line + 1)).flatten, ?_⟩
  have cut := List.take_append_drop line (Text.splitInclusive source.toList)
  rw [List.drop_eq_getElem_cons inside, same] at cut
  conv_lhs => rw [← whole, ← cut]
  rw [List.flatten_append, List.flatten_cons, List.append_assoc]

/-- The byte that the protocol defines is what it asks for. -/
theorem lspOffset_converts (source : String) (line character : Nat) :
    Converts source line character (lspOffset source line character) := by
  rw [lspOffset]
  cases found : lineAt source line with
  | none =>
      refine ⟨⟨source.toList, [], (List.append_nil _).symm, rfl⟩, ?_, ?_, ?_⟩
      all_goals
        rw [found]
        nofun
  | some text =>
      obtain ⟨ending, same, -⟩ := terminator text
      obtain ⟨after, cut⟩ := lineAt_split found
      simp only
      refine ⟨?_, ?_, ?_, ?_⟩
      · obtain ⟨front, rest, split, offset⟩ :=
          utf16ToByteOffset_boundary character (Text.unterminated text)
        refine ⟨((Text.splitInclusive source.toList).take line).flatten ++ front,
          rest ++ ending ++ after, ?_, ?_⟩
        · rw [split] at same
          refine cut.trans ?_
          conv_lhs => rw [same]
          simp only [List.append_assoc]
        · rw [byteLength_append, offset]
          rfl
      · intro other held front rest split column
        obtain rfl : text = other := Option.some.inj (found.symm.trans held)
        rw [split, column, utf16ToByteOffset_between]
      · intro other held front char rest split above below
        obtain rfl : text = other := Option.some.inj (found.symm.trans held)
        rw [width_append, width_cons, width_nil, Nat.add_zero] at below
        rw [split, utf16ToByteOffset_inside above below]
        exact .inr rfl
      · intro other held past
        obtain rfl : text = other := Option.some.inj (found.symm.trans held)
        rw [utf16ToByteOffset_past (Nat.le_of_lt past)]

/-- A position is converted as the protocol asks exactly where its column is in its line. -/
theorem converts_iff_inLine (source : String) (line character : Nat) :
    Converts source line character (linecolToByte source line character) ↔
      InLine source line character := by
  constructor
  · intro converts text found ended
    by_contra behind
    have past := Nat.not_le.mp behind
    have asked := converts.behind text found past
    have defined := (lspOffset_converts source line character).behind text found past
    have inside := (linecolToByte_eq_lspOffset_iff source line character).mp
      (asked.trans defined.symm)
    exact behind (inside text found ended)
  · intro inside
    rw [(linecolToByte_eq_lspOffset_iff source line character).mpr inside]
    exact lspOffset_converts source line character

/-- A column behind the first line gives the start of the second one. -/
theorem behind_line_on_next :
    ¬∀ source line character,
      Converts source line character (linecolToByte source line character) := by
  intro all
  have found : lineAt "ab\ncd" 0 = some ['a', 'b', '\n'] := by decide
  have behind := (all "ab\ncd" 0 9).behind _ found (by decide)
  exact absurd behind (by decide)

end Daemon.LspOps
