import SynthHiresBridge.Data.StringLiteral
import SynthHiresBridge.Daemon.BrowserPage

namespace Daemon.BrowserScript

open Json StringLiteral

/-- A control character without a short escape has two hexadecimal digits. -/
theorem control_digits {c : Char} (control : c.toNat < 0x20) :
    isHexDigit (hexDigit (c.toNat / 16)) = true ∧ isHexDigit (hexDigit (c.toNat % 16)) = true ∧
      hexCode ['0', '0', hexDigit (c.toNat / 16), hexDigit (c.toNat % 16)] = c.toNat := by
  have digits : ∀ code < 32, isHexDigit (hexDigit (code / 16)) = true ∧
      isHexDigit (hexDigit (code % 16)) = true ∧
      hexCode ['0', '0', hexDigit (code / 16), hexDigit (code % 16)] = code := by decide
  exact digits c.toNat control

/-- A character is escaped by a mark, by its code, or not at all. -/
theorem escapeChar_cases (c : Char) :
    (∃ mark, escapeChar c = ['\\', mark] ∧ shortEscape mark = some c ∧
      singleEscape mark = some c.toNat) ∨
    (escapeChar c = ['\\', 'u', '0', '0', hexDigit (c.toNat / 16), hexDigit (c.toNat % 16)] ∧
      c.toNat < 0x20) ∨
    (escapeChar c = [c] ∧ 0x20 ≤ c.toNat ∧ c ≠ '"' ∧ c ≠ '\\') := by
  unfold escapeChar
  split
  · rename_i same
    exact .inl ⟨'"', rfl, by rw [same]; decide⟩
  split
  · rename_i same
    exact .inl ⟨'\\', rfl, by rw [same]; decide⟩
  split
  · rename_i same
    exact .inl ⟨'n', rfl, by rw [same]; decide⟩
  split
  · rename_i same
    exact .inl ⟨'r', rfl, by rw [same]; decide⟩
  split
  · rename_i same
    exact .inl ⟨'t', rfl, by rw [same]; decide⟩
  split
  · rename_i control
    exact .inr (.inl ⟨rfl, control⟩)
  · rename_i quote backslash _ _ _ printable
    exact .inr (.inr ⟨rfl, Nat.le_of_not_lt printable, quote, backslash⟩)

theorem control_hex {c : Char} (control : c.toNat < 0x20) :
    ∀ digit ∈ ['0', '0', hexDigit (c.toNat / 16), hexDigit (c.toNat % 16)],
      isHexDigit digit = true := by
  obtain ⟨high, low, _⟩ := control_digits control
  have zero : isHexDigit '0' = true := rfl
  simp [high, low, zero]

theorem spellsChar_escapeChar (c : Char) : SpellsChar (escapeChar c) c := by
  rcases escapeChar_cases c with ⟨mark, text, short, _⟩ | ⟨text, control⟩ | ⟨text, printable, quote, backslash⟩
  · rw [text]
    exact .short mark c short
  · rw [text]
    exact .long _ _ _ _ c (control_hex control) (control_digits control).2.2.symm
  · rw [text]
    exact .plain c printable quote backslash

theorem spellsString_escape (chars : List Char) : SpellsString (chars.flatMap escapeChar) chars := by
  induction chars with
  | nil => exact .nil
  | cons c rest ih =>
      rw [List.flatMap_cons]
      exact .cons _ _ c rest (spellsChar_escapeChar c) ih

/-- One text spells one string. -/
theorem spellsString_unique {text first second : List Char} (one : SpellsString text first)
    (two : SpellsString text second) : first = second := by
  have read := (parseString_spelled one []).symm.trans (parseString_spelled two [])
  exact (Prod.mk.inj (Option.some.inj read)).1

/-- A character that is not escaped stands for itself. -/
theorem scriptSpells_plain {c : Char} {rest : List Char} {value : List Nat} (backslash : c ≠ '\\')
    (spelled : ScriptSpells (c :: rest) value) :
    ∃ more, value = units c.toNat ++ more ∧ ScriptSpells rest more := by
  cases spelled with
  | plain _ _ more _ _ _ _ others => exact ⟨more, rfl, others⟩
  | single => exact absurd rfl backslash
  | own => exact absurd rfl backslash
  | octal => exact absurd rfl backslash
  | hex => exact absurd rfl backslash
  | unicode => exact absurd rfl backslash
  | braced => exact absurd rfl backslash
  | continuation => exact absurd rfl backslash
  | carriage => exact absurd rfl backslash

/-- An octal escape begins with an octal digit. -/
theorem LongestOctal.head {digits rest more : List Char} {mark : Char}
    (longest : LongestOctal digits rest) (same : mark :: more = digits ++ rest) :
    isOctalDigit mark = true := by
  obtain ⟨some, octal, _⟩ := longest
  obtain ⟨first, others, rfl⟩ := List.exists_cons_of_ne_nil some
  obtain ⟨rfl, _⟩ := List.cons.inj same
  exact List.all_eq_true.mp octal mark List.mem_cons_self

/-- A single escape character has no other meaning. -/
theorem singleEscape_only {mark : Char} {code : Nat} (single : singleEscape mark = some code) :
    isOctalDigit mark = false ∧ mark ≠ 'x' ∧ mark ≠ 'u' ∧ isLineTerminator mark = false := by
  unfold singleEscape at single
  split at single <;> cases single <;> decide

theorem scriptSpells_single {mark : Char} {code : Nat} {rest : List Char} {value : List Nat}
    (single : singleEscape mark = some code) (spelled : ScriptSpells ('\\' :: mark :: rest) value) :
    ∃ more, value = code :: more ∧ ScriptSpells rest more := by
  obtain ⟨octal, hex, unicode, line⟩ := singleEscape_only single
  generalize same : '\\' :: mark :: rest = text at spelled
  cases spelled with
  | nil => cases same
  | plain c _ _ _ backslash => exact absurd (List.cons.inj same).1.symm backslash
  | single own more other value escape others =>
      obtain ⟨rfl, rfl⟩ := List.cons.inj (List.cons.inj same).2
      rw [single] at escape
      obtain rfl := Option.some.inj escape
      exact ⟨value, rfl, others⟩
  | own own more value plain =>
      obtain ⟨rfl, rfl⟩ := List.cons.inj (List.cons.inj same).2
      rw [single] at plain
      cases plain
  | octal digits more value longest =>
      rw [LongestOctal.head longest (List.cons.inj same).2] at octal
      cases octal
  | hex => exact absurd (List.cons.inj (List.cons.inj same).2).1 hex
  | unicode => exact absurd (List.cons.inj (List.cons.inj same).2).1 unicode
  | braced => exact absurd (List.cons.inj (List.cons.inj same).2).1 unicode
  | continuation own more value terminator =>
      obtain ⟨rfl, rfl⟩ := List.cons.inj (List.cons.inj same).2
      rw [line] at terminator
      cases terminator
  | carriage =>
      obtain ⟨rfl, _⟩ := List.cons.inj (List.cons.inj same).2
      cases line

theorem scriptSpells_unicode {first second third fourth : Char} {rest : List Char}
    {value : List Nat} (hex : isHexDigit first = true)
    (spelled : ScriptSpells ('\\' :: 'u' :: first :: second :: third :: fourth :: rest) value) :
    ∃ more, value = hexCode [first, second, third, fourth] :: more ∧ ScriptSpells rest more := by
  generalize same : '\\' :: 'u' :: first :: second :: third :: fourth :: rest = text at spelled
  cases spelled with
  | nil => cases same
  | plain c _ _ _ backslash => exact absurd (List.cons.inj same).1.symm backslash
  | single own more other value escape =>
      obtain ⟨rfl, _⟩ := List.cons.inj (List.cons.inj same).2
      cases escape
  | own own more value _ _ _ unicode =>
      exact absurd (List.cons.inj (List.cons.inj same).2).1.symm unicode
  | octal digits more value longest =>
      cases LongestOctal.head longest (List.cons.inj same).2
  | hex => exact absurd (List.cons.inj (List.cons.inj same).2).1 (by decide)
  | unicode _ _ _ _ more value _ others =>
      cases same
      exact ⟨value, rfl, others⟩
  | braced =>
      obtain ⟨rfl, _⟩ := List.cons.inj (List.cons.inj (List.cons.inj same).2).2
      cases hex
  | continuation own more value terminator =>
      obtain ⟨rfl, _⟩ := List.cons.inj (List.cons.inj same).2
      cases terminator
  | carriage => exact absurd (List.cons.inj (List.cons.inj same).2).1 (by decide)

theorem singleEscape_small {mark : Char} {code : Nat} (single : singleEscape mark = some code) :
    code < 0x10000 := by
  unfold singleEscape at single
  split at single <;> cases single <;> decide

/-- What an escaped character spells in a script is its code units. -/
theorem scriptSpells_escapeChar (c : Char) (rest : List Char) (value : List Nat) :
    ScriptSpells (escapeChar c ++ rest) value ↔
      ∃ more, value = units c.toNat ++ more ∧ ScriptSpells rest more := by
  rcases escapeChar_cases c with
    ⟨mark, text, short, single⟩ | ⟨text, control⟩ | ⟨text, printable, quote, backslash⟩
  · have small : units c.toNat = [c.toNat] := if_pos (singleEscape_small single)
    rw [text, small]
    constructor
    · exact scriptSpells_single single
    · rintro ⟨more, rfl, others⟩
      exact .single mark rest c.toNat more single others
  · obtain ⟨_, _, code⟩ := control_digits control
    have small : units c.toNat = [c.toNat] := if_pos (by omega)
    rw [text, small]
    constructor
    · intro spelled
      obtain ⟨more, rfl, others⟩ := scriptSpells_unicode rfl spelled
      exact ⟨more, by rw [code]; rfl, others⟩
    · rintro ⟨more, rfl, others⟩
      have spelled := ScriptSpells.unicode _ _ _ _ rest more (control_hex control) others
      rwa [code] at spelled
  · rw [text]
    constructor
    · exact scriptSpells_plain backslash
    · rintro ⟨more, rfl, others⟩
      refine .plain c rest more quote backslash ?_ ?_ others
      · rintro rfl
        exact absurd printable (by decide)
      · rintro rfl
        exact absurd printable (by decide)

theorem scriptSpells_nil {value : List Nat} : ScriptSpells [] value ↔ value = [] := by
  constructor
  · intro spelled
    cases spelled
    rfl
  · rintro rfl
    exact .nil

/-- The escaped text spells its code units in a script, and nothing else. -/
theorem scriptSpells_escape (chars : List Char) (value : List Nat) :
    ScriptSpells (chars.flatMap escapeChar) value ↔ value = utf16 chars := by
  induction chars generalizing value with
  | nil => exact scriptSpells_nil
  | cons c rest ih =>
      rw [List.flatMap_cons, scriptSpells_escapeChar, utf16, List.flatMap_cons]
      constructor
      · rintro ⟨more, rfl, others⟩
        rw [(ih more).mp others]
        rfl
      · rintro rfl
        exact ⟨utf16 rest, rfl, (ih _).mpr rfl⟩

theorem jsonEscape_toList (text : String) :
    (jsonEscape text).toList = '"' :: (text.toList.flatMap escapeChar ++ ['"']) :=
  String.toList_ofList

theorem literal_jsonEscape (text : String) : Literal (jsonEscape text).toList :=
  ⟨text.toList.flatMap escapeChar, inside_of_spellsString (spellsString_escape text.toList),
    jsonEscape_toList text⟩

/-- An escaped text is one literal of JSON and of a script, it is read back as the text, and no
shorter front of it, nor any longer one in the evaluated expression, is a literal. -/
theorem jsonEscape_closed :
    (∀ text : String, ∃ inside, (jsonEscape text).toList = '"' :: (inside ++ ['"']) ∧
      (∀ string, SpellsString inside string ↔ string = text.toList) ∧
      (∀ rest, parseString (inside ++ '"' :: rest) = some (text.toList, rest)) ∧
      ∀ value, ScriptSpells inside value ↔ value = utf16 text.toList) ∧
    (∀ (text : String) (front : List Char), front <+: (jsonEscape text).toList → Literal front →
      front = (jsonEscape text).toList) ∧
    (∀ (text : String) (literal : List Char), Literal literal →
      containsFront.toList ++ literal <+: (containsExpression text).toList →
      literal = (jsonEscape text).toList) ∧
    Function.Injective jsonEscape := by
  refine ⟨?_, ?_, ?_, ?_⟩
  · intro text
    have spelled := spellsString_escape text.toList
    refine ⟨text.toList.flatMap escapeChar, jsonEscape_toList text, fun string => ⟨?_, ?_⟩,
      parseString_spelled spelled, scriptSpells_escape text.toList⟩
    · exact fun other => spellsString_unique other spelled
    · rintro rfl
      exact spelled
  · intro text front begins literal
    exact literal.unique (literal_jsonEscape text) begins List.prefix_rfl
  · intro text literal shape begins
    rw [containsExpression, String.toList_append, String.toList_append, List.append_assoc,
      List.prefix_append_right_inj] at begins
    exact shape.unique (literal_jsonEscape text) begins (List.prefix_append _ _)
  · intro first second same
    have letters := congrArg String.toList same
    rw [jsonEscape_toList, jsonEscape_toList] at letters
    have inside := List.append_cancel_right (List.cons.inj letters).2
    have spelled := spellsString_escape first.toList
    rw [inside] at spelled
    exact String.toList_inj.mp (spellsString_unique spelled (spellsString_escape second.toList))

end Daemon.BrowserScript
