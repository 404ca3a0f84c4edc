import SynthHiresBridge.Data.JsonParse

namespace StringLiteral

/-- Between its quotation marks a literal has escapes of at least two characters, and no other
character is a quotation mark. -/
inductive Inside : List Char → Prop where
  | nil : Inside []
  | plain (c : Char) (rest : List Char) (quote : c ≠ '"') (backslash : c ≠ '\\')
      (others : Inside rest) : Inside (c :: rest)
  | escape (mark : Char) (rest : List Char) (others : Inside rest) : Inside ('\\' :: mark :: rest)

/-- Every string literal of JSON and every one of a script in double quotation marks looks so. -/
def Literal (text : List Char) : Prop := ∃ inside, Inside inside ∧ text = '"' :: (inside ++ ['"'])

/-- A first literal ends where any other reading ends. -/
theorem Inside.eq_of_quote {first second : List Char} (one : Inside first) (two : Inside second)
    {after rest : List Char} (same : first ++ '"' :: after = second ++ '"' :: rest) :
    first = second := by
  induction one generalizing second with
  | nil =>
      cases two with
      | nil => rfl
      | plain c more quote _ _ => exact absurd (List.cons.inj same).1.symm quote
      | escape mark more _ => exact absurd (List.cons.inj same).1 (by decide)
  | plain c more quote backslash _ ih =>
      cases two with
      | nil => exact absurd (List.cons.inj same).1 quote
      | plain other rest _ _ others =>
          obtain ⟨rfl, later⟩ := List.cons.inj same
          rw [ih others later]
      | escape mark rest _ => exact absurd (List.cons.inj same).1 backslash
  | escape mark more _ ih =>
      cases two with
      | nil => exact absurd (List.cons.inj same).1 (by decide)
      | plain c rest _ backslash _ => exact absurd (List.cons.inj same).1.symm backslash
      | escape other rest others =>
          obtain ⟨rfl, later⟩ := List.cons.inj (List.cons.inj same).2
          rw [ih others later]

/-- Of the texts that begin another one, at most one is a literal. -/
theorem Literal.unique {first second text : List Char} (one : Literal first) (two : Literal second)
    (front : first <+: text) (begin : second <+: text) : first = second := by
  obtain ⟨inside, shape, rfl⟩ := one
  obtain ⟨other, form, rfl⟩ := two
  obtain ⟨after, rfl⟩ := front
  obtain ⟨rest, same⟩ := begin
  simp only [List.cons_append, List.append_assoc] at same
  rw [form.eq_of_quote shape (List.cons.inj same).2]

theorem Inside.append {first second : List Char} (one : Inside first) (two : Inside second) :
    Inside (first ++ second) := by
  induction one with
  | nil => exact two
  | plain c rest quote backslash _ ih => exact .plain c _ quote backslash ih
  | escape mark rest _ ih => exact .escape mark _ ih

/-- The code units of a code point. -/
def units (code : Nat) : List Nat :=
  if code < 0x10000 then [code]
  else [0xD800 + (code - 0x10000) / 0x400, 0xDC00 + (code - 0x10000) % 0x400]

/-- The code units of a text. -/
def utf16 (text : List Char) : List Nat := text.flatMap fun c => units c.toNat

/-- The single escape characters of a script. -/
def singleEscape : Char → Option Nat
  | '\'' => some 0x27
  | '"' => some 0x22
  | '\\' => some 0x5C
  | 'b' => some 0x08
  | 'f' => some 0x0C
  | 'n' => some 0x0A
  | 'r' => some 0x0D
  | 't' => some 0x09
  | 'v' => some 0x0B
  | _ => none

def isLineTerminator (c : Char) : Bool :=
  c == '\n' || c == '\r' || c == '\u2028' || c == '\u2029'

def isOctalDigit (c : Char) : Bool := '0' ≤ c && c ≤ '7'

def octalCode (digits : List Char) : Nat :=
  digits.foldl (fun code digit => 8 * code + (digit.toNat - '0'.toNat)) 0

/-- The digits of an octal escape are as many as stay below 256. -/
def LongestOctal (digits rest : List Char) : Prop :=
  digits ≠ [] ∧ digits.all isOctalDigit = true ∧ octalCode digits < 256 ∧ digits.length ≤ 3 ∧
    (digits.length = 3 ∨ ∀ next, rest.head? = some next → isOctalDigit next = true →
      256 ≤ octalCode (digits ++ [next]))

/-- What stands between the double quotation marks of a script, with its code units. -/
inductive ScriptSpells : List Char → List Nat → Prop where
  | nil : ScriptSpells [] []
  | plain (c : Char) (rest : List Char) (value : List Nat) (quote : c ≠ '"') (backslash : c ≠ '\\')
      (feed : c ≠ '\n') (carriage : c ≠ '\r') (others : ScriptSpells rest value) :
      ScriptSpells (c :: rest) (units c.toNat ++ value)
  | single (mark : Char) (rest : List Char) (code : Nat) (value : List Nat)
      (escape : singleEscape mark = some code) (others : ScriptSpells rest value) :
      ScriptSpells ('\\' :: mark :: rest) (code :: value)
  | own (mark : Char) (rest : List Char) (value : List Nat) (plain : singleEscape mark = none)
      (digit : isOctalDigit mark = false) (hex : mark ≠ 'x') (unicode : mark ≠ 'u')
      (line : isLineTerminator mark = false) (others : ScriptSpells rest value) :
      ScriptSpells ('\\' :: mark :: rest) (units mark.toNat ++ value)
  | octal (digits rest : List Char) (value : List Nat) (longest : LongestOctal digits rest)
      (others : ScriptSpells rest value) :
      ScriptSpells ('\\' :: (digits ++ rest)) (octalCode digits :: value)
  | hex (first second : Char) (rest : List Char) (value : List Nat)
      (digits : ∀ digit ∈ [first, second], Json.isHexDigit digit = true)
      (others : ScriptSpells rest value) :
      ScriptSpells ('\\' :: 'x' :: first :: second :: rest) (Json.hexCode [first, second] :: value)
  | unicode (first second third fourth : Char) (rest : List Char) (value : List Nat)
      (digits : ∀ digit ∈ [first, second, third, fourth], Json.isHexDigit digit = true)
      (others : ScriptSpells rest value) :
      ScriptSpells ('\\' :: 'u' :: first :: second :: third :: fourth :: rest)
        (Json.hexCode [first, second, third, fourth] :: value)
  | braced (digits rest : List Char) (value : List Nat) (some : digits ≠ [])
      (hex : ∀ digit ∈ digits, Json.isHexDigit digit = true)
      (small : Json.hexCode digits ≤ 0x10FFFF) (others : ScriptSpells rest value) :
      ScriptSpells ('\\' :: 'u' :: '\x7b' :: (digits ++ '\x7d' :: rest))
        (units (Json.hexCode digits) ++ value)
  | continuation (mark : Char) (rest : List Char) (value : List Nat)
      (line : isLineTerminator mark = true) (alone : mark = '\r' → rest.head? ≠ some '\n')
      (others : ScriptSpells rest value) : ScriptSpells ('\\' :: mark :: rest) value
  | carriage (rest : List Char) (value : List Nat) (others : ScriptSpells rest value) :
      ScriptSpells ('\\' :: '\r' :: '\n' :: rest) value

theorem Inside.of_plain {text : List Char} (plain : ∀ c ∈ text, c ≠ '"' ∧ c ≠ '\\') :
    Inside text := by
  induction text with
  | nil => exact .nil
  | cons c rest ih =>
      obtain ⟨⟨quote, backslash⟩, later⟩ := List.forall_mem_cons.mp plain
      exact .plain c rest quote backslash (ih later)

theorem isHexDigit_plain {digit : Char} (hex : Json.isHexDigit digit = true) :
    digit ≠ '"' ∧ digit ≠ '\\' := by
  constructor
  · rintro rfl
    cases hex
  · rintro rfl
    cases hex

/-- A script's literal looks as literals do. -/
theorem ScriptSpells.inside {text : List Char} {value : List Nat}
    (spelled : ScriptSpells text value) : Inside text := by
  induction spelled with
  | nil => exact .nil
  | plain c rest _ quote backslash _ _ _ ih => exact .plain c rest quote backslash ih
  | single mark rest _ _ _ _ ih => exact .escape mark rest ih
  | own mark rest _ _ _ _ _ _ _ ih => exact .escape mark rest ih
  | octal digits rest _ longest _ ih =>
      obtain ⟨some, octal, _⟩ := longest
      obtain ⟨first, others, rfl⟩ := List.exists_cons_of_ne_nil some
      refine .escape first (others ++ rest) (Inside.append (.of_plain ?_) ih)
      intro digit member
      have own : isOctalDigit digit = true :=
        List.all_eq_true.mp octal digit (List.mem_cons_of_mem first member)
      constructor
      · rintro rfl
        cases own
      · rintro rfl
        cases own
  | hex first second rest _ digits _ ih =>
      exact .escape 'x' _ (Inside.append
        (.of_plain fun digit member => isHexDigit_plain (digits digit member)) ih)
  | unicode first second third fourth rest _ digits _ ih =>
      exact .escape 'u' _ (Inside.append
        (.of_plain fun digit member => isHexDigit_plain (digits digit member)) ih)
  | braced digits rest _ _ hex _ _ ih =>
      refine .escape 'u' _ (.plain '\x7b' _ (by decide) (by decide) (Inside.append
        (.of_plain fun digit member => isHexDigit_plain (hex digit member)) ?_))
      exact .plain '\x7d' rest (by decide) (by decide) ih
  | continuation mark rest _ _ _ _ ih => exact .escape mark rest ih
  | carriage rest _ _ ih => exact .escape '\r' _ (.plain '\n' rest (by decide) (by decide) ih)

/-- A string of JSON looks as literals do. -/
theorem inside_of_spellsString {text string : List Char}
    (spelled : Json.SpellsString text string) : Inside text := by
  induction spelled with
  | nil => exact .nil
  | cons text rest c string one _ ih =>
      cases one with
      | plain _ _ quote backslash => exact .plain c rest quote backslash ih
      | short mark _ _ => exact .escape mark rest ih
      | long first second third fourth _ digits _ =>
          exact .escape 'u' _ (Inside.append
            (.of_plain fun digit member => isHexDigit_plain (digits digit member)) ih)

end StringLiteral
