import SynthHiresBridge.Data.Text
import Mathlib.Data.List.DropRight

namespace Text

/-- `str::split_once` cuts a text at the first place of a pattern. -/
def splitOnce (pattern : List Char) : List Char → Option (List Char × List Char)
  | [] => if pattern = [] then some ([], []) else none
  | char :: rest =>
      if pattern.isPrefixOf (char :: rest) then some ([], (char :: rest).drop pattern.length)
      else (splitOnce pattern rest).map fun cut => (char :: cut.1, cut.2)

/-- `str::strip_prefix` drops a pattern from the front when it is there. -/
def stripPrefix (pattern text : List Char) : Option (List Char) :=
  if pattern.isPrefixOf text then some (text.drop pattern.length) else none

/-- `str::to_ascii_lowercase` changes the capital letters of ASCII only. -/
def lower (text : List Char) : List Char :=
  text.map Char.toLower

/-- The characters of the general category Control. -/
def isControl (char : Char) : Bool :=
  char.toNat < 0x20 || (0x7F ≤ char.toNat && char.toNat ≤ 0x9F)

/-- A capital letter becomes a letter, and any other character stays. -/
theorem toLower_cases (char : Char) :
    char.toLower = char ∨ (char.isAlpha = true ∧ char.toLower.isAlpha = true) := by
  delta Char.isAlpha Char.isUpper Char.isLower Char.toLower
  split
  · rename_i upper
    right
    obtain ⟨low, high⟩ := upper
    rw [ge_iff_le, UInt32.le_iff_toNat_le] at low
    rw [UInt32.le_iff_toNat_le] at high
    simp only [UInt32.le_iff_toNat_le, UInt32.toNat_add, ge_iff_le]
    simp at low high ⊢
    omega
  · exact .inl rfl

theorem toLower_eq {char other : Char} (plain : other.isAlpha = false)
    (same : char.toLower = other) : char = other := by
  rcases toLower_cases char with stays | ⟨-, letter⟩
  · rw [← stays, same]
  · rw [same, plain] at letter
    cases letter

theorem isAlpha_of_toLower {char : Char} (letter : char.toLower.isAlpha = true) :
    char.isAlpha = true := by
  rcases toLower_cases char with stays | ⟨before, -⟩
  · rwa [stays] at letter
  · exact before

theorem lower_eq {text other : List Char} (plain : ∀ char ∈ other, char.isAlpha = false)
    (same : lower text = other) : text = other := by
  induction text generalizing other with
  | nil => exact same
  | cons char text ih =>
      cases other with
      | nil => cases same
      | cons first other =>
          obtain ⟨head, rest⟩ := List.cons.inj same
          rw [toLower_eq (plain first List.mem_cons_self) head,
            ih (fun later member => plain later (List.mem_cons_of_mem first member)) rest]

theorem stripPrefix_append (pattern rest : List Char) :
    stripPrefix pattern (pattern ++ rest) = some rest := by
  rw [stripPrefix, if_pos (List.isPrefixOf_iff_prefix.mpr (List.prefix_append pattern rest)),
    List.drop_left]

/-- A cut ends at the first place where its pattern begins. -/
theorem splitOnce_append {head : Char} {key : List Char} (absent : head ∉ key)
    (tail value : List Char) :
    splitOnce (head :: tail) (key ++ (head :: tail) ++ value) = some (key, value) := by
  induction key with
  | nil =>
      have here : (head :: tail).isPrefixOf (head :: (tail ++ value)) = true :=
        List.isPrefixOf_iff_prefix.mpr (List.prefix_append (head :: tail) value)
      rw [List.nil_append, List.cons_append, splitOnce, if_pos here, ← List.cons_append,
        List.drop_left]
  | cons first rest ih =>
      obtain ⟨other, later⟩ := List.ne_and_not_mem_of_not_mem_cons absent
      have apart : (head :: tail).isPrefixOf (first :: (rest ++ (head :: tail) ++ value)) = false := by
        simp [List.isPrefixOf, other]
      rw [List.cons_append, List.cons_append, splitOnce, apart, ih later]
      rfl

/-- A cut at one character ends at its first place. -/
theorem splitOnce_single {char : Char} {key : List Char} (absent : char ∉ key) (value : List Char) :
    splitOnce [char] (key ++ char :: value) = some (key, value) := by
  have cut := splitOnce_append absent [] value
  rwa [List.append_assoc, List.singleton_append] at cut

theorem splitOnce_none {char : Char} {text : List Char} (absent : char ∉ text) :
    splitOnce [char] text = none := by
  induction text with
  | nil => rfl
  | cons first rest ih =>
      obtain ⟨other, later⟩ := List.ne_and_not_mem_of_not_mem_cons absent
      have apart : ([char].isPrefixOf (first :: rest)) = false := by
        simp [List.isPrefixOf, other]
      rw [splitOnce, apart, ih later]
      rfl

/-- The front of a text is cut at the same place, or it ends before it. -/
theorem splitOnce_of_prefix {char : Char} {key value part : List Char} (absent : char ∉ key)
    (short : part <+: key ++ char :: value) :
    splitOnce [char] part = none ∨ ∃ rest, splitOnce [char] part = some (key, rest) := by
  rcases List.prefix_or_prefix_of_prefix short (List.prefix_append key (char :: value)) with
    inside | ⟨rest, rfl⟩
  · exact .inl (splitOnce_none fun member => absent (inside.subset member))
  · have more := (List.prefix_append_right_inj key).mp short
    cases rest with
    | nil =>
        left
        rw [List.append_nil]
        exact splitOnce_none absent
    | cons first rest =>
        obtain rfl : first = char := (List.cons_prefix_cons.mp more).1
        exact .inr ⟨rest, splitOnce_single absent rest⟩

/-- The pieces of the front of a text are pieces of the text, and the last one may be cut off. -/
theorem splitOn_of_prefix {separator : Char} {short whole : List Char} (inside : short <+: whole) :
    ∃ front last large after, short.splitOn separator = front ++ [last] ∧
      whole.splitOn separator = front ++ large :: after ∧ last <+: large := by
  induction short generalizing whole with
  | nil =>
      obtain ⟨large, after, same⟩ := List.exists_cons_of_ne_nil (List.splitOn_ne_nil separator whole)
      exact ⟨[], [], large, after, rfl, same, List.nil_prefix⟩
  | cons first rest ih =>
      obtain ⟨more, rfl⟩ := inside
      obtain ⟨front, last, large, after, cut, pieces, smaller⟩ := ih (List.prefix_append rest more)
      rw [List.cons_append, List.splitOn_cons_eq_if_modifyHead, List.splitOn_cons_eq_if_modifyHead,
        cut, pieces]
      split
      · exact ⟨[] :: front, last, large, after, rfl, rfl, smaller⟩
      · cases front with
        | nil => exact ⟨[], first :: last, first :: large, after, rfl, rfl,
            List.cons_prefix_cons.mpr ⟨rfl, smaller⟩⟩
        | cons head front => exact ⟨(first :: head) :: front, last, large, after, rfl, rfl, smaller⟩

/-- A text without white space is not trimmed. -/
theorem trim_of_solid {text : List Char} (solid : ∀ char ∈ text, isWhitespace char = false) :
    trim (String.ofList text) = String.ofList text := by
  have stays : ∀ chars : List Char, (∀ char ∈ chars, isWhitespace char = false) →
      chars.dropWhile isWhitespace = chars := by
    intro chars all
    cases chars with
    | nil => rfl
    | cons first rest => rw [List.dropWhile_cons_of_neg (by simp [all first List.mem_cons_self])]
  rw [trim, String.toList_ofList, stays text solid,
    stays text.reverse (fun char member => solid char (List.mem_reverse.mp member)),
    List.reverse_reverse]

/-- A cut text is put together again. -/
theorem splitOnce_some {pattern text front rest : List Char}
    (cut : splitOnce pattern text = some (front, rest)) : text = front ++ pattern ++ rest := by
  induction text generalizing front with
  | nil =>
      rw [splitOnce] at cut
      split at cut
      · rename_i empty
        obtain ⟨rfl, rfl⟩ := Prod.mk.inj (Option.some.inj cut)
        rw [empty]
        rfl
      · cases cut
  | cons char text ih =>
      rw [splitOnce] at cut
      split at cut
      · rename_i here
        obtain ⟨rfl, rfl⟩ := Prod.mk.inj (Option.some.inj cut)
        obtain ⟨more, same⟩ := List.isPrefixOf_iff_prefix.mp here
        rw [← same, List.drop_left]
        rfl
      · obtain ⟨⟨first, more⟩, found, same⟩ := Option.map_eq_some_iff.mp cut
        obtain ⟨rfl, rfl⟩ := Prod.mk.inj same
        rw [ih found]
        rfl

theorem splitOnce_scheme {scheme : List Char} (colonless : ':' ∉ scheme) (rest : List Char) :
    splitOnce "://".toList (scheme ++ ':' :: '/' :: '/' :: rest) = some (scheme, rest) := by
  have separator : "://".toList = [':', '/', '/'] := by decide
  have cut := splitOnce_append colonless ['/', '/'] rest
  rwa [List.append_assoc, ← separator] at cut

/-- What is trimmed off is white space. -/
theorem trim_parts (text : String) : ∃ lead trail, text.toList = lead ++ (trim text).toList ++ trail ∧
    (∀ char ∈ lead, isWhitespace char = true) ∧ ∀ char ∈ trail, isWhitespace char = true := by
  refine ⟨text.toList.takeWhile isWhitespace,
    ((text.toList.dropWhile isWhitespace).reverse.takeWhile isWhitespace).reverse, ?_, ?_, ?_⟩
  · rw [trim, String.toList_ofList, List.append_assoc, ← List.reverse_append,
      List.takeWhile_append_dropWhile, List.reverse_reverse, List.takeWhile_append_dropWhile]
  · intro char member
    exact List.mem_takeWhile_imp member
  · intro char member
    exact List.mem_takeWhile_imp (List.mem_reverse.mp member)

theorem trim_trim (text : String) : trim (trim text) = trim text := by
  have whole : ∀ list : List Char, trim (String.ofList list) =
      String.ofList ((list.dropWhile isWhitespace).rdropWhile isWhitespace) := by
    intro list
    rw [trim, String.toList_ofList]
    rfl
  obtain ⟨list, rfl⟩ : ∃ list, text = String.ofList list := ⟨text.toList, String.ofList_toList.symm⟩
  have front : ((list.dropWhile isWhitespace).rdropWhile isWhitespace).dropWhile isWhitespace =
      (list.dropWhile isWhitespace).rdropWhile isWhitespace := by
    cases kept : (list.dropWhile isWhitespace).rdropWhile isWhitespace with
    | nil => rfl
    | cons first rest =>
        obtain ⟨more, whole⟩ := List.rdropWhile_prefix isWhitespace (list.dropWhile isWhitespace)
        have begins := List.head?_dropWhile_not isWhitespace list
        rw [← whole, kept] at begins
        exact List.dropWhile_cons_of_neg (by simpa using begins)
  rw [whole, whole, front, List.rdropWhile_idempotent]

/-- A text that neither begins nor ends with white space is not trimmed. -/
theorem trim_of_ends {first : Char} {middle : List Char} {last : Char}
    (firstSolid : isWhitespace first = false) (lastSolid : isWhitespace last = false) {text : String}
    (same : text.toList = first :: middle ∧ text.toList.getLast? = some last) : trim text = text := by
  obtain ⟨begins, stops⟩ := same
  have front : text.toList.dropWhile isWhitespace = text.toList := by
    rw [begins, List.dropWhile_cons_of_neg (by simp [firstSolid])]
  have back : text.toList.reverse.dropWhile isWhitespace = text.toList.reverse := by
    rw [← List.head?_reverse] at stops
    obtain ⟨rest, reversed⟩ := List.head?_eq_some_iff.mp stops
    rw [reversed, List.dropWhile_cons_of_neg (by simp [lastSolid])]
  rw [trim, front, back, List.reverse_reverse, String.ofList_toList]

end Text
