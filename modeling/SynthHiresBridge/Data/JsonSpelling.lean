import SynthHiresBridge.Data.JsonText

namespace Json

/-- The white space between the tokens of a text. -/
def isBlank (c : Char) : Bool := c = ' ' || c = '\n' || c = '\r' || c = '\t'

/-- A gap has white space only. -/
def Gap (text : List Char) : Prop := ∀ c ∈ text, isBlank c = true

theorem Gap.nil : Gap [] := fun _ member => by cases member

theorem Gap.space : Gap [' '] := fun c member => by
  rw [List.mem_singleton.mp member]
  rfl

theorem Gap.newline (depth : Nat) : Gap (Value.newline depth) := by
  intro c member
  rcases List.mem_cons.mp member with rfl | spaces
  · rfl
  · rw [List.eq_of_mem_replicate spaces]
    rfl

/-- The value of four hexadecimal digits. -/
def hexCode (digits : List Char) : Nat :=
  digits.foldl (fun code digit => 16 * code +
    (if digit.isDigit then digit.toNat - 48
      else if 'a' ≤ digit then digit.toNat - 87 else digit.toNat - 55)) 0

def isHexDigit (c : Char) : Bool := c.isDigit || 'a' ≤ c && c ≤ 'f' || 'A' ≤ c && c ≤ 'F'

/-- The character of a short escape. -/
def shortEscape : Char → Option Char
  | '"' => some '"'
  | '\\' => some '\\'
  | '/' => some '/'
  | 'b' => some (Char.ofNat 8)
  | 'f' => some (Char.ofNat 12)
  | 'n' => some '\n'
  | 'r' => some '\r'
  | 't' => some '\t'
  | _ => none

/-- A character of a string stands for itself or is escaped. -/
inductive SpellsChar : List Char → Char → Prop where
  | plain (c : Char) (printable : 32 ≤ c.toNat) (quote : c ≠ '"') (backslash : c ≠ '\\') :
      SpellsChar [c] c
  | short (mark c : Char) (escape : shortEscape mark = some c) : SpellsChar ['\\', mark] c
  | long (first second third fourth c : Char)
      (digits : ∀ digit ∈ [first, second, third, fourth], isHexDigit digit = true)
      (code : c.toNat = hexCode [first, second, third, fourth]) :
      SpellsChar ['\\', 'u', first, second, third, fourth] c

/-- The characters of a string between its quotation marks. -/
inductive SpellsString : List Char → List Char → Prop where
  | nil : SpellsString [] []
  | cons (text rest : List Char) (c : Char) (string : List Char) (one : SpellsChar text c)
      (others : SpellsString rest string) : SpellsString (text ++ rest) (c :: string)

/-- A text spells a value, or the entries of an object. -/
inductive Node where
  | value (value : Value)
  | entries (entries : List (String × Value))

/-- A text spells objects and strings with any white space between its tokens. -/
inductive Spells : List Char → Node → Prop where
  | string (text : List Char) (string : String) (spelled : SpellsString text string.toList) :
      Spells ('"' :: (text ++ ['"'])) (.value (.string string))
  | empty (gap : List Char) (blank : Gap gap) :
      Spells ('\x7b' :: (gap ++ ['\x7d'])) (.value (.object []))
  | object (text gap : List Char) (entries : List (String × Value))
      (spelled : Spells text (.entries entries)) (blank : Gap gap) :
      Spells ('\x7b' :: (text ++ (gap ++ ['\x7d']))) (.value (.object entries))
  | last (before name middle after text : List Char) (key : String) (value : Value)
      (first : Gap before) (named : SpellsString name key.toList) (second : Gap middle)
      (third : Gap after) (spelled : Spells text (.value value)) :
      Spells (before ++ '"' :: (name ++ '"' :: (middle ++ ':' :: (after ++ text))))
        (.entries [(key, value)])
  | more (before name middle after text gap rest : List Char) (key : String) (value : Value)
      (entries : List (String × Value)) (first : Gap before)
      (named : SpellsString name key.toList) (second : Gap middle) (third : Gap after)
      (spelled : Spells text (.value value)) (fourth : Gap gap)
      (others : Spells rest (.entries entries)) :
      Spells (before ++ '"' :: (name ++ '"' :: (middle ++ ':' :: (after ++ (text ++
        (gap ++ ',' :: rest)))))) (.entries ((key, value) :: entries))

/-- A document has white space before and after its value. -/
def Document (text : List Char) (value : Value) : Prop :=
  ∃ before inner after, text = before ++ (inner ++ after) ∧ Gap before ∧ Gap after ∧
    Spells inner (.value value)

/-- A value of objects and strings that is nested up to a limit. -/
inductive Plain : Nat → Value → Prop where
  | string (limit : Nat) (text : String) : Plain limit (.string text)
  | object (limit : Nat) (entries : List (String × Value))
      (inside : ∀ entry ∈ entries, Plain limit entry.2) : Plain (limit + 1) (.object entries)

/-- Escaped characters are spelled. -/
theorem spellsChar_escapeChar (c : Char) : SpellsChar (escapeChar c) c := by
  unfold escapeChar
  split
  · rename_i same
    exact .short '"' c (by rw [same]; rfl)
  split
  · rename_i same
    exact .short '\\' c (by rw [same]; rfl)
  split
  · rename_i same
    exact .short 'b' c (by rw [same]; rfl)
  split
  · rename_i same
    exact .short 'f' c (by rw [same]; rfl)
  split
  · rename_i same
    exact .short 'n' c (by rw [same]; rfl)
  split
  · rename_i same
    exact .short 'r' c (by rw [same]; rfl)
  split
  · rename_i same
    exact .short 't' c (by rw [same]; rfl)
  split
  · rename_i control
    have digits : ∀ code < 32, isHexDigit (hexDigit (code / 16)) = true ∧
        isHexDigit (hexDigit (code % 16)) = true ∧
        hexCode ['0', '0', hexDigit (code / 16), hexDigit (code % 16)] = code := by decide
    obtain ⟨high, low, code⟩ := digits c.toNat control
    apply SpellsChar.long
    · have zero : isHexDigit '0' = true := rfl
      simp [high, low, zero]
    · exact code.symm
  · rename_i quote backslash _ _ _ _ _ printable
    exact .plain c (by omega) quote backslash

theorem spellsString_flatMap (chars : List Char) :
    SpellsString (chars.flatMap escapeChar) chars := by
  induction chars with
  | nil => exact .nil
  | cons c rest ih =>
      rw [List.flatMap_cons]
      exact .cons _ _ c rest (spellsChar_escapeChar c) ih

/-- Indented entries spell an object that has some. -/
theorem indentedEntries_spells (depth : Nat) (entry : String × Value) (rest : List (String × Value))
    (inside : ∀ other ∈ entry :: rest, Spells (other.2.indented depth) (.value other.2)) :
    Spells (Value.indentedEntries depth (entry :: rest)) (.entries (entry :: rest)) := by
  induction rest generalizing entry with
  | nil =>
      obtain ⟨key, value⟩ := entry
      have spelled := Spells.last _ _ [] [' '] _ key value (Gap.newline depth)
        (spellsString_flatMap key.toList) Gap.nil Gap.space (inside (key, value) List.mem_cons_self)
      simpa [Value.indentedEntries, stringText] using spelled
  | cons next more ih =>
      obtain ⟨key, value⟩ := entry
      obtain ⟨own, others⟩ := List.forall_mem_cons.mp inside
      have spelled := Spells.more _ _ [] [' '] _ [] _ key value _ (Gap.newline depth)
        (spellsString_flatMap key.toList) Gap.nil Gap.space own Gap.nil (ih next others)
      simpa [Value.indentedEntries, stringText] using spelled

/-- An indented text spells its value. -/
theorem indented_spells {limit : Nat} {value : Value} (plain : Plain limit value) (depth : Nat) :
    Spells (value.indented depth) (.value value) := by
  induction plain generalizing depth with
  | string limit text => exact .string _ text (spellsString_flatMap text.toList)
  | object limit entries inside ih =>
      cases entries with
      | nil => exact .empty [] Gap.nil
      | cons entry rest =>
          exact .object _ _ _ (indentedEntries_spells (depth + 1) entry rest fun other member =>
            ih other member (depth + 1)) (Gap.newline depth)

end Json
