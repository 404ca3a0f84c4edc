import SynthHiresBridge.Data.JsonSpelling

namespace Json

def skipBlank (text : List Char) : List Char := text.dropWhile isBlank

/-- The characters of a string up to its closing quotation mark, and the text after it. A code that
is no scalar value is not read. -/
def parseString : List Char → Option (List Char × List Char)
  | [] => none
  | '"' :: rest => some ([], rest)
  | '\\' :: 'u' :: first :: second :: third :: fourth :: rest =>
      let digits := [first, second, third, fourth]
      if digits.all isHexDigit ∧ (hexCode digits).isValidChar then
        (parseString rest).map (Prod.map (List.cons (Char.ofNat (hexCode digits))) id)
      else none
  | '\\' :: mark :: rest =>
      match shortEscape mark with
      | some c => (parseString rest).map (Prod.map (List.cons c) id)
      | none => none
  | c :: rest =>
      if 32 ≤ c.toNat ∧ c ≠ '\\' then (parseString rest).map (Prod.map (List.cons c) id) else none

mutual

/-- A value of objects and strings, and the text after it. -/
def parseValue : Nat → List Char → Option (Value × List Char)
  | 0, _ => none
  | fuel + 1, text =>
      match skipBlank text with
      | '"' :: rest =>
          (parseString rest).map (Prod.map (fun string => .string (String.ofList string)) id)
      | '\x7b' :: rest =>
          if (skipBlank rest).head? = some '\x7d' then some (.object [], (skipBlank rest).tail)
          else (parseEntries fuel rest).map (Prod.map .object id)
      | _ => none

/-- The entries of an object up to its closing brace, and the text after it. -/
def parseEntries : Nat → List Char → Option (List (String × Value) × List Char)
  | 0, _ => none
  | fuel + 1, text =>
      match skipBlank text with
      | '"' :: rest =>
          match parseString rest with
          | none => none
          | some (name, rest) =>
              match skipBlank rest with
              | ':' :: rest =>
                  match parseValue fuel rest with
                  | none => none
                  | some (value, rest) =>
                      match skipBlank rest with
                      | '\x7d' :: rest => some ([(String.ofList name, value)], rest)
                      | ',' :: rest => (parseEntries fuel rest).map
                          (Prod.map (List.cons (String.ofList name, value)) id)
                      | _ => none
              | _ => none
      | _ => none

end

/-- A document is a value with white space around it. -/
def parseDocument (text : List Char) : Option Value :=
  match parseValue (text.length + 1) text with
  | some (value, rest) => if skipBlank rest = [] then some value else none
  | none => none

/-- White space is skipped. -/
theorem skipBlank_append {gap : List Char} (blank : Gap gap) (rest : List Char) :
    skipBlank (gap ++ rest) = skipBlank rest := by
  induction gap with
  | nil => rfl
  | cons c more ih =>
      obtain ⟨own, others⟩ := List.forall_mem_cons.mp blank
      rw [List.cons_append, skipBlank, List.dropWhile_cons, if_pos own]
      exact ih others

theorem skipBlank_cons {c : Char} (dark : isBlank c = false) (rest : List Char) :
    skipBlank (c :: rest) = c :: rest := by
  rw [skipBlank, List.dropWhile_cons, dark, if_neg (by simp)]

/-- A spelled character is read back. -/
theorem parseString_char {text : List Char} {c : Char} (spelled : SpellsChar text c)
    (rest : List Char) :
    parseString (text ++ rest) = (parseString rest).map (Prod.map (List.cons c) id) := by
  cases spelled with
  | plain _ printable quote backslash =>
      rw [List.singleton_append, parseString]
      · rw [if_pos ⟨printable, backslash⟩]
      all_goals simp_all
  | short mark _ escape =>
      have other : mark ≠ 'u' := by
        rintro rfl
        cases escape
      show parseString ('\\' :: mark :: rest) = _
      rw [parseString]
      · rw [escape]
      all_goals simp_all
  | long first second third fourth _ digits code =>
      have valid : (hexCode [first, second, third, fourth]).isValidChar := by
        rw [← code]
        exact c.valid
      have same : Char.ofNat (hexCode [first, second, third, fourth]) = c := by
        rw [← code, Char.ofNat_toNat]
      show parseString ('\\' :: 'u' :: first :: second :: third :: fourth :: rest) = _
      rw [parseString, if_pos ⟨List.all_eq_true.mpr digits, valid⟩, same]

/-- A spelled string is read back. -/
theorem parseString_spelled {text string : List Char} (spelled : SpellsString text string)
    (rest : List Char) : parseString (text ++ '"' :: rest) = some (string, rest) := by
  induction spelled with
  | nil => rfl
  | cons text more c string one others ih =>
      rw [List.append_assoc, parseString_char one, ih]
      rfl

/-- The entries of an object begin with a quotation mark. -/
theorem Spells.head {text : List Char} {entries : List (String × Value)}
    (spelled : Spells text (.entries entries)) (rest : List Char) :
    (skipBlank (text ++ rest)).head? = some '"' := by
  cases spelled with
  | last before name middle after text key value first named second third spelled =>
      rw [List.append_assoc, skipBlank_append first]
      rfl
  | more before name middle after text gap others key value entries first named second third spelled
      fourth last =>
      rw [List.append_assoc, skipBlank_append first]
      rfl

theorem parseValue_gap {gap : List Char} (blank : Gap gap) (fuel : Nat) (rest : List Char) :
    parseValue fuel (gap ++ rest) = parseValue fuel rest := by
  cases fuel with
  | zero => rfl
  | succ fuel => rw [parseValue, parseValue, skipBlank_append blank]

/-- An entry is the last one before a closing brace, and others follow it after a comma. -/
theorem parseEntries_entry {before name middle after text gap : List Char} {key : String}
    {value : Value} {fuel : Nat} (first : Gap before) (named : SpellsString name key.toList)
    (second : Gap middle) (third : Gap after)
    (read : ∀ rest, parseValue fuel (text ++ rest) = some (value, rest)) (fourth : Gap gap)
    {mark : Char} (dark : isBlank mark = false) (rest : List Char) :
    parseEntries (fuel + 1) (before ++ '"' :: (name ++ '"' :: (middle ++ ':' :: (after ++
      (text ++ (gap ++ mark :: rest)))))) =
        if mark = '\x7d' then some ([(key, value)], rest)
        else if mark = ',' then (parseEntries fuel rest).map (Prod.map (List.cons (key, value)) id)
        else none := by
  rw [parseEntries, skipBlank_append first, skipBlank_cons rfl]
  simp only
  rw [parseString_spelled named]
  simp only
  rw [skipBlank_append second, skipBlank_cons rfl]
  simp only
  rw [parseValue_gap third, read]
  simp only
  rw [skipBlank_append fourth, skipBlank_cons dark, String.ofList_toList]
  split
  · rename_i same
    cases same
    rw [if_pos rfl]
  · rename_i same
    cases same
    rw [if_neg (by decide), if_pos rfl]
  · rename_i brace comma
    rw [if_neg fun same => brace rest (by rw [same]), if_neg fun same => comma rest (by rw [same])]

/-- What a parser makes of a text that spells a value or the entries of an object. -/
def Node.Reads (fuel : Nat) (text : List Char) : Node → Prop
  | .value result => ∀ rest, parseValue fuel (text ++ rest) = some (result, rest)
  | .entries list => ∀ gap rest, Gap gap →
      parseEntries fuel (text ++ (gap ++ '\x7d' :: rest)) = some (list, rest)

/-- A spelled text is read back with enough fuel. -/
theorem Spells.reads {text : List Char} {node : Node} (spelled : Spells text node) :
    ∀ fuel, text.length < fuel → node.Reads fuel text := by
  induction spelled with
  | string text string spelled =>
      intro fuel enough rest
      obtain ⟨fuel, rfl⟩ := Nat.exists_eq_add_one_of_ne_zero (Nat.ne_zero_of_lt enough)
      rw [List.cons_append, List.append_assoc, List.singleton_append, parseValue,
        skipBlank_cons rfl]
      simp only
      rw [parseString_spelled spelled]
      simp
  | empty gap blank =>
      intro fuel enough rest
      obtain ⟨fuel, rfl⟩ := Nat.exists_eq_add_one_of_ne_zero (Nat.ne_zero_of_lt enough)
      rw [List.cons_append, List.append_assoc, List.singleton_append, parseValue,
        skipBlank_cons rfl]
      simp only
      rw [skipBlank_append blank, skipBlank_cons rfl]
      simp
  | object text gap entries spelled blank ih =>
      intro fuel enough rest
      obtain ⟨fuel, rfl⟩ := Nat.exists_eq_add_one_of_ne_zero (Nat.ne_zero_of_lt enough)
      have less : text.length < fuel := by
        simp only [List.length_cons, List.length_append] at enough
        omega
      rw [List.cons_append, List.append_assoc, List.append_assoc, List.singleton_append, parseValue,
        skipBlank_cons rfl]
      simp only
      rw [spelled.head, if_neg (by simp), ih fuel less gap rest blank]
      rfl
  | last before name middle after text key value first named second third spelled ih =>
      intro fuel enough gap rest blank
      obtain ⟨fuel, rfl⟩ := Nat.exists_eq_add_one_of_ne_zero (Nat.ne_zero_of_lt enough)
      have less : text.length < fuel := by
        simp only [List.length_cons, List.length_append] at enough
        omega
      simp only [List.append_assoc, List.cons_append]
      rw [parseEntries_entry first named second third (ih fuel less) blank rfl]
      exact if_pos rfl
  | more before name middle after text gap others key value entries first named second third spelled
      fourth listed ih next =>
      intro fuel enough tail rest blank
      obtain ⟨fuel, rfl⟩ := Nat.exists_eq_add_one_of_ne_zero (Nat.ne_zero_of_lt enough)
      obtain ⟨less, fewer⟩ : text.length < fuel ∧ others.length < fuel := by
        simp only [List.length_cons, List.length_append] at enough
        omega
      simp only [List.append_assoc, List.cons_append]
      rw [parseEntries_entry first named second third (ih fuel less) fourth rfl,
        if_neg (by decide), if_pos rfl, next fuel fewer tail rest blank]
      rfl

/-- A document is read back. -/
theorem parseDocument_eq {text : List Char} {value : Value} (document : Document text value) :
    parseDocument text = some value := by
  obtain ⟨before, inner, after, rfl, first, last, spelled⟩ := document
  have enough : inner.length < (before ++ (inner ++ after)).length + 1 := by
    simp only [List.length_append]
    omega
  rw [parseDocument, parseValue_gap first, spelled.reads _ enough after]
  have ended : skipBlank after = [] := by
    rw [← List.append_nil after, skipBlank_append last]
    rfl
  exact if_pos ended

end Json
