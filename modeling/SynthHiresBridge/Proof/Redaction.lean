import Mathlib.Data.List.Infix
import SynthHiresBridge.Daemon.Redaction

namespace Daemon

open Json

/-- A key that equals a name of the list or ends with one after both are normalized. -/
def namesSecret (key : String) : Bool :=
  sensitive.any fun name => normalizeKey key == normalizeKey name ||
    (normalizeKey name).isSuffixOf (normalizeKey key)

/-- The one name that its own normalization takes out of the list. -/
def lostName : List Char := "contentbase64".toList

theorem isSensitive_iff (key : String) :
    isSensitive key = true ↔ ∃ name ∈ sensitive, name.toList <:+ normalizeKey key := by
  rw [isSensitive, List.any_eq_true]
  refine exists_congr fun name => and_congr_right fun _ => ?_
  rw [Bool.or_eq_true, beq_iff_eq, List.isSuffixOf_iff_suffix]
  refine ⟨?_, .inr⟩
  rintro (same | ends)
  · rw [same]
  · exact ends

theorem namesSecret_iff (key : String) :
    namesSecret key = true ↔ ∃ name ∈ sensitive, normalizeKey name <:+ normalizeKey key := by
  rw [namesSecret, List.any_eq_true]
  refine exists_congr fun name => and_congr_right fun _ => ?_
  rw [Bool.or_eq_true, beq_iff_eq, List.isSuffixOf_iff_suffix]
  refine ⟨?_, .inr⟩
  rintro (same | ends)
  · rw [same]
  · exact ends

theorem underscore_notMem_normalizeKey (key : String) : '_' ∉ normalizeKey key := by
  simp [normalizeKey]

/-- A key that is redacted is one of a secret. -/
theorem namesSecret_of_isSensitive {key : String} (caught : isSensitive key = true) :
    namesSecret key = true := by
  obtain ⟨name, listed, ends⟩ := (isSensitive_iff key).mp caught
  have normal : ∀ name ∈ sensitive, '_' ∉ name.toList → normalizeKey name = name.toList := by
    decide
  have plain : '_' ∉ name.toList := fun inside =>
    underscore_notMem_normalizeKey key (ends.subset inside)
  apply (namesSecret_iff key).mpr
  exact ⟨name, listed, by rwa [normal name listed plain]⟩

/-- A key of a secret is redacted, or it ends with the lost name. -/
theorem isSensitive_or_lost {key : String} (secret : namesSecret key = true) :
    isSensitive key = true ∨ lostName <:+ normalizeKey key := by
  obtain ⟨name, listed, ends⟩ := (namesSecret_iff key).mp secret
  have normal : ∀ name ∈ sensitive, normalizeKey name = lostName ∨
      ∃ plain ∈ sensitive, plain.toList = normalizeKey name := by
    decide
  rcases normal name listed with same | ⟨plain, known, same⟩
  · exact .inr (same ▸ ends)
  · exact .inl ((isSensitive_iff key).mpr ⟨plain, known, same ▸ ends⟩)

theorem not_isSensitive_of_lost {key : String} (lost : lostName <:+ normalizeKey key) :
    isSensitive key = false := by
  rw [Bool.eq_false_iff, Ne, isSensitive_iff]
  rintro ⟨name, listed, ends⟩
  have apart : ∀ name ∈ sensitive, ¬name.toList <:+ lostName ∧ ¬lostName <:+ name.toList := by
    decide
  rcases List.suffix_or_suffix_of_suffix ends lost with inside | around
  · exact (apart name listed).1 inside
  · exact (apart name listed).2 around

/-- The keys of secrets that are not redacted are those that end with the lost name. -/
theorem lost_iff (key : String) :
    namesSecret key = true ∧ isSensitive key = false ↔ lostName <:+ normalizeKey key := by
  constructor
  · rintro ⟨secret, kept⟩
    rcases isSensitive_or_lost secret with caught | lost
    · rw [kept] at caught
      cases caught
    · exact lost
  · intro lost
    refine ⟨(namesSecret_iff key).mpr ⟨"content_base64", by decide, ?_⟩,
      not_isSensitive_of_lost lost⟩
    have same : normalizeKey "content_base64" = lostName := by decide
    rwa [same]

mutual

/-- A value without what stands under the keys of secrets. -/
def masked : Value → Value
  | .object entries => .object (maskedEntries entries)
  | .array items => .array (maskedItems items)
  | .string text => .string text
  | .null => .null
  | .bool value => .bool value
  | .number value => .number value

def maskedItems : List Value → List Value
  | [] => []
  | item :: rest => masked item :: maskedItems rest

def maskedEntries : List (String × Value) → List (String × Value)
  | [] => []
  | (key, value) :: rest =>
      (key, if namesSecret key then .null else masked value) :: maskedEntries rest

end

mutual

/-- The keys of secrets that are reached outside the values that are redacted. -/
def exposedKeys : Value → List String
  | .object entries => exposedEntries entries
  | .array items => exposedItems items
  | _ => []

def exposedItems : List Value → List String
  | [] => []
  | item :: rest => exposedKeys item ++ exposedItems rest

def exposedEntries : List (String × Value) → List String
  | [] => []
  | (key, value) :: rest =>
      (if isSensitive key then [] else if namesSecret key then [key] else exposedKeys value) ++
        exposedEntries rest

end

mutual

/-- Every exposed value is replaced by another one. -/
def fillExposed (filling : Value) : Value → Value
  | .object entries => .object (fillEntries filling entries)
  | .array items => .array (fillItems filling items)
  | .string text => .string text
  | .null => .null
  | .bool value => .bool value
  | .number value => .number value

def fillItems (filling : Value) : List Value → List Value
  | [] => []
  | item :: rest => fillExposed filling item :: fillItems filling rest

def fillEntries (filling : Value) : List (String × Value) → List (String × Value)
  | [] => []
  | (key, value) :: rest =>
      (key, if isSensitive key then value else if namesSecret key then filling
        else fillExposed filling value) :: fillEntries filling rest

end

mutual

theorem exposedKeys_masked (value : Value) : exposedKeys (masked value) = exposedKeys value := by
  cases value with
  | object entries => exact exposedEntries_masked entries
  | array items => exact exposedItems_masked items
  | null => rfl
  | bool value => rfl
  | number value => rfl
  | string text => rfl

theorem exposedItems_masked (items : List Value) :
    exposedItems (maskedItems items) = exposedItems items := by
  cases items with
  | nil => rfl
  | cons item rest =>
      rw [maskedItems, exposedItems, exposedKeys_masked item, exposedItems_masked rest,
        exposedItems]

theorem exposedEntries_masked (entries : List (String × Value)) :
    exposedEntries (maskedEntries entries) = exposedEntries entries := by
  cases entries with
  | nil => rfl
  | cons entry rest =>
      obtain ⟨key, value⟩ := entry
      rw [maskedEntries, exposedEntries, exposedEntries_masked rest, exposedEntries]
      congr 1
      cases namesSecret key with
      | true => rfl
      | false => simp only [Bool.false_eq_true, if_false, exposedKeys_masked value]

end

mutual

theorem masked_fillExposed (filling value : Value) :
    masked (fillExposed filling value) = masked value := by
  cases value with
  | object entries => exact congrArg Value.object (masked_fillEntries filling entries)
  | array items => exact congrArg Value.array (masked_fillItems filling items)
  | null => rfl
  | bool value => rfl
  | number value => rfl
  | string text => rfl

theorem masked_fillItems (filling : Value) (items : List Value) :
    maskedItems (fillItems filling items) = maskedItems items := by
  cases items with
  | nil => rfl
  | cons item rest =>
      rw [fillItems, maskedItems, masked_fillExposed filling item, masked_fillItems filling rest,
        maskedItems]

theorem masked_fillEntries (filling : Value) (entries : List (String × Value)) :
    maskedEntries (fillEntries filling entries) = maskedEntries entries := by
  cases entries with
  | nil => rfl
  | cons entry rest =>
      obtain ⟨key, value⟩ := entry
      rw [fillEntries, maskedEntries, masked_fillEntries filling rest, maskedEntries]
      congr 2
      cases caught : isSensitive key with
      | true => simp only [if_true]
      | false =>
          cases namesSecret key with
          | true => simp only [if_true]
          | false =>
              simp only [Bool.false_eq_true, if_false, masked_fillExposed filling value]

end

mutual

/-- The redacted form depends on the masked form only, when no key of a secret is exposed. -/
theorem redact_masked (value : Value) (closed : exposedKeys value = []) :
    redact (masked value) = redact value := by
  cases value with
  | object entries => exact congrArg Value.object (redact_maskedEntries entries closed)
  | array items => exact congrArg Value.array (redact_maskedItems items closed)
  | null => rfl
  | bool value => rfl
  | number value => rfl
  | string text => rfl

theorem redact_maskedItems (items : List Value) (closed : exposedItems items = []) :
    redactItems (maskedItems items) = redactItems items := by
  cases items with
  | nil => rfl
  | cons item rest =>
      obtain ⟨own, others⟩ := List.append_eq_nil_iff.mp closed
      rw [maskedItems, redactItems, redact_masked item own, redact_maskedItems rest others,
        redactItems]

theorem redact_maskedEntries (entries : List (String × Value))
    (closed : exposedEntries entries = []) :
    redactEntries (maskedEntries entries) = redactEntries entries := by
  cases entries with
  | nil => rfl
  | cons entry rest =>
      obtain ⟨key, value⟩ := entry
      obtain ⟨own, others⟩ := List.append_eq_nil_iff.mp closed
      rw [maskedEntries, redactEntries, redact_maskedEntries rest others, redactEntries]
      congr 2
      cases caught : isSensitive key with
      | true => simp only [if_true]
      | false =>
          rw [caught, if_neg Bool.false_ne_true] at own
          cases secret : namesSecret key with
          | true =>
              rw [secret, if_pos rfl] at own
              cases own
          | false =>
              rw [secret, if_neg Bool.false_ne_true] at own
              simp only [Bool.false_eq_true, if_false, redact_masked value own]

end

/-- The items after the first one add a comma and their own text. -/
theorem length_itemsText (item : Value) (rest : List Value) :
    (Value.itemsText (item :: rest)).length =
      item.text.length + 1 + if rest = [] then 0 else (Value.itemsText rest).length := by
  cases rest with
  | nil => simp [Value.itemsText]
  | cons next more =>
      simp [Value.itemsText]
      omega

theorem length_entriesText (key : String) (value : Value) (rest : List (String × Value)) :
    (Value.entriesText ((key, value) :: rest)).length =
      (stringText key).length + 1 + value.text.length + 1 +
        if rest = [] then 0 else (Value.entriesText rest).length := by
  cases rest with
  | nil =>
      simp [Value.entriesText]
      omega
  | cons next more =>
      obtain ⟨name, held⟩ := next
      simp [Value.entriesText]
      omega

theorem redactItems_fillItems_eq_nil (filling : Value) (items : List Value) :
    redactItems (fillItems filling items) = [] ↔ items = [] := by
  cases items <;> simp [fillItems, redactItems]

theorem redactEntries_fillEntries_eq_nil (filling : Value) (entries : List (String × Value)) :
    redactEntries (fillEntries filling entries) = [] ↔ entries = [] := by
  cases entries <;> simp [fillEntries, redactEntries]

/-- The value of one key, when the values below it are known to keep the difference. -/
theorem length_redact_field (key : String) (value : Value)
    (below : (redact (fillExposed .null value)).text.length =
      (redact (fillExposed (.array []) value)).text.length + 2 * (exposedKeys value).length) :
    (if isSensitive key = true then Value.string "[redacted]" else
        redact (if isSensitive key = true then value else
          if namesSecret key = true then .null else fillExposed .null value)).text.length =
      (if isSensitive key = true then Value.string "[redacted]" else
        redact (if isSensitive key = true then value else
          if namesSecret key = true then .array []
          else fillExposed (.array []) value)).text.length +
      2 * (if isSensitive key = true then [] else
        if namesSecret key = true then [key] else exposedKeys value).length := by
  cases isSensitive key with
  | true => simp only [if_true, List.length_nil, Nat.mul_zero, Nat.add_zero]
  | false =>
      cases namesSecret key with
      | true =>
          simp only [Bool.false_eq_true, if_true, if_false, List.length_singleton, redact]
          rfl
      | false => simp only [Bool.false_eq_true, if_false, below]

mutual

/-- Null is longer than an empty array by two characters, in the place of every exposed value. -/
theorem length_redact_fillExposed (value : Value) :
    (redact (fillExposed .null value)).text.length =
      (redact (fillExposed (.array []) value)).text.length + 2 * (exposedKeys value).length := by
  cases value with
  | object entries =>
      have inside := length_redact_fillEntries entries
      simp only [fillExposed, redact, Value.text, List.length_cons, exposedKeys]
      omega
  | array items =>
      have inside := length_redact_fillItems items
      simp only [fillExposed, redact, Value.text, List.length_cons, exposedKeys]
      omega
  | null => simp only [fillExposed, exposedKeys, List.length_nil, Nat.mul_zero, Nat.add_zero]
  | bool value => simp only [fillExposed, exposedKeys, List.length_nil, Nat.mul_zero, Nat.add_zero]
  | number value =>
      simp only [fillExposed, exposedKeys, List.length_nil, Nat.mul_zero, Nat.add_zero]
  | string text => simp only [fillExposed, exposedKeys, List.length_nil, Nat.mul_zero, Nat.add_zero]

theorem length_redact_fillItems (items : List Value) :
    (Value.itemsText (redactItems (fillItems .null items))).length =
      (Value.itemsText (redactItems (fillItems (.array []) items))).length +
        2 * (exposedItems items).length := by
  cases items with
  | nil => rfl
  | cons item rest =>
      have own := length_redact_fillExposed item
      have others := length_redact_fillItems rest
      simp only [fillItems, redactItems, length_itemsText, redactItems_fillItems_eq_nil,
        exposedItems, List.length_append]
      by_cases last : rest = []
      · subst last
        simp only [if_true, exposedItems, List.length_nil]
        omega
      · simp only [last, if_false]
        omega

theorem length_redact_fillEntries (entries : List (String × Value)) :
    (Value.entriesText (redactEntries (fillEntries .null entries))).length =
      (Value.entriesText (redactEntries (fillEntries (.array []) entries))).length +
        2 * (exposedEntries entries).length := by
  cases entries with
  | nil => rfl
  | cons entry rest =>
      obtain ⟨key, value⟩ := entry
      have own := length_redact_fillExposed value
      have others := length_redact_fillEntries rest
      simp only [fillEntries, redactEntries, length_entriesText, redactEntries_fillEntries_eq_nil,
        exposedEntries, List.length_append]
      have field := length_redact_field key value own
      by_cases last : rest = []
      · subst last
        simp only [if_true, exposedEntries, List.length_nil]
        omega
      · simp only [last, if_false]
        omega

end

mutual

/-- The keys that stand in the redacted form. -/
def reachedKeys : Value → List String
  | .object entries => reachedEntries entries
  | .array items => reachedItems items
  | _ => []

def reachedItems : List Value → List String
  | [] => []
  | item :: rest => reachedKeys item ++ reachedItems rest

def reachedEntries : List (String × Value) → List String
  | [] => []
  | (key, value) :: rest =>
      key :: (if isSensitive key then [] else reachedKeys value) ++ reachedEntries rest

end

mutual

/-- No key of a secret is exposed exactly when no reached key ends with the lost name. -/
theorem exposedKeys_eq_nil (value : Value) :
    exposedKeys value = [] ↔ ∀ key ∈ reachedKeys value, ¬lostName <:+ normalizeKey key := by
  cases value with
  | object entries => exact exposedEntries_eq_nil entries
  | array items => exact exposedItems_eq_nil items
  | null => simp [exposedKeys, reachedKeys]
  | bool value => simp [exposedKeys, reachedKeys]
  | number value => simp [exposedKeys, reachedKeys]
  | string text => simp [exposedKeys, reachedKeys]

theorem exposedItems_eq_nil (items : List Value) :
    exposedItems items = [] ↔ ∀ key ∈ reachedItems items, ¬lostName <:+ normalizeKey key := by
  cases items with
  | nil => simp [exposedItems, reachedItems]
  | cons item rest =>
      rw [exposedItems, List.append_eq_nil_iff, exposedKeys_eq_nil item, exposedItems_eq_nil rest,
        reachedItems, List.forall_mem_append]

theorem exposedEntries_eq_nil (entries : List (String × Value)) :
    exposedEntries entries = [] ↔
      ∀ key ∈ reachedEntries entries, ¬lostName <:+ normalizeKey key := by
  cases entries with
  | nil => simp [exposedEntries, reachedEntries]
  | cons entry rest =>
      obtain ⟨key, value⟩ := entry
      rw [exposedEntries, List.append_eq_nil_iff, exposedEntries_eq_nil rest, reachedEntries,
        List.forall_mem_append, List.forall_mem_cons, ← lost_iff]
      apply and_congr_left'
      cases caught : isSensitive key with
      | true => simp
      | false =>
          cases namesSecret key with
          | true => simp
          | false => simp [exposedKeys_eq_nil value]

end

/-- Parameters without such a key give the text of their masked form. -/
theorem redactAuditParams_of_clean {params other : Value}
    (clean : ∀ key ∈ reachedKeys params, ¬lostName <:+ normalizeKey key)
    (same : masked other = masked params) :
    redactAuditParams other = redactAuditParams params := by
  have closed := (exposedKeys_eq_nil params).mpr clean
  have closedOther : exposedKeys other = [] := by
    rw [← exposedKeys_masked, same, exposedKeys_masked, closed]
  rw [redactAuditParams, ← redact_masked other closedOther, same, redact_masked params closed,
    redactAuditParams]

/-- The line in the file then does not depend on the values of secrets either. -/
theorem auditLine_of_clean {params other : Value}
    (clean : ∀ key ∈ reachedKeys params, ¬lostName <:+ normalizeKey key)
    (same : masked other = masked params) (time capability : String) :
    auditLine time capability other = auditLine time capability params := by
  rw [auditLine, redactAuditParams_of_clean clean same, auditLine]

/-- Parameters that agree outside the values of secrets give the same text exactly when no key that
is reached ends with the name that the list loses. -/
theorem redactAuditParams_masked (params : Value) :
    (∀ other, masked other = masked params →
      redactAuditParams other = redactAuditParams params) ↔
    ∀ key ∈ reachedKeys params, ¬lostName <:+ normalizeKey key := by
  constructor
  · intro same
    have texts : redactAuditParams (fillExposed .null params) =
        redactAuditParams (fillExposed (.array []) params) :=
      (same _ (masked_fillExposed .null params)).trans
        (same _ (masked_fillExposed (.array []) params)).symm
    have lengths := congrArg List.length (String.ofList_injective texts)
    rw [length_redact_fillExposed params] at lengths
    apply (exposedKeys_eq_nil params).mp
    apply List.eq_nil_of_length_eq_zero
    omega
  · intro clean other same
    exact redactAuditParams_of_clean clean same

/-- The content of a file stands in the line under a key that the list names. -/
theorem redactAuditParams_content :
    masked (.object [("content_base64", .string "c2VjcmV0")]) =
      masked (.object [("content_base64", .string "b3RoZXI=")]) ∧
    redactAuditParams (.object [("content_base64", .string "c2VjcmV0")]) ≠
      redactAuditParams (.object [("content_base64", .string "b3RoZXI=")]) := by
  constructor
  · rfl
  · decide

end Daemon
