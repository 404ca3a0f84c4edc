import SynthHiresBridge.Data.JsonText
import SynthHiresBridge.Data.Text

namespace Json

def hexByte (digit : Nat) : UInt8 := UInt8.ofNat (hexDigit digit).toNat

/-- `serde_json` looks every byte of a string up in its table of escapes. -/
def escapeByte (byte : UInt8) : List UInt8 :=
  if byte = 0x22 then [0x5C, 0x22]
  else if byte = 0x5C then [0x5C, 0x5C]
  else if byte = 0x08 then [0x5C, 0x62]
  else if byte = 0x09 then [0x5C, 0x74]
  else if byte = 0x0A then [0x5C, 0x6E]
  else if byte = 0x0C then [0x5C, 0x66]
  else if byte = 0x0D then [0x5C, 0x72]
  else if byte < 0x20 then
    [0x5C, 0x75, 0x30, 0x30, hexByte (byte.toNat / 16), hexByte (byte.toNat % 16)]
  else [byte]

def stringBytes (text : String) : List UInt8 :=
  0x22 :: ((Text.encode text).flatMap escapeByte ++ [0x22])

namespace Value

mutual

/-- `serde_json::to_vec` writes a value without white space. -/
def bytes : Value → List UInt8
  | .null => Text.encode "null"
  | .bool true => Text.encode "true"
  | .bool false => Text.encode "false"
  | .number value => Text.encode (String.ofList value.text)
  | .string text => stringBytes text
  | .array items => 0x5B :: itemsBytes true items
  | .object entries => 0x7B :: entriesBytes true entries

/-- A comma comes before every item but the first. -/
def itemsBytes (first : Bool) : List Value → List UInt8
  | [] => [0x5D]
  | item :: rest => (if first then [] else [0x2C]) ++ item.bytes ++ itemsBytes false rest

def entriesBytes (first : Bool) : List (String × Value) → List UInt8
  | [] => [0x7D]
  | (key, value) :: rest =>
      (if first then [] else [0x2C]) ++ stringBytes key ++ 0x3A :: (value.bytes ++
        entriesBytes false rest)

end

end Value

/-- A character that is not in ASCII has no byte in ASCII. -/
theorem high_of_mem_utf8EncodeChar {c : Char} (high : 128 ≤ c.toNat) {byte : UInt8}
    (member : byte ∈ String.utf8EncodeChar c) : 128 ≤ byte.toNat := by
  change 128 ≤ c.val.toNat at high
  have follow : ∀ code, 128 ≤ (UInt8.ofNat (code % 0x40 + 0x80)).toNat := by
    intro code
    rw [UInt8.toNat_ofNat']
    omega
  rw [String.utf8EncodeChar, if_neg (by omega)] at member
  split at member
  · rcases List.mem_cons.mp member with rfl | member
    · rw [UInt8.toNat_ofNat']
      omega
    · rw [List.mem_singleton.mp member]
      exact follow _
  split at member
  · rcases List.mem_cons.mp member with rfl | member
    · rw [UInt8.toNat_ofNat']
      omega
    rcases List.mem_cons.mp member with rfl | member
    · exact follow _
    · rw [List.mem_singleton.mp member]
      exact follow _
  · rcases List.mem_cons.mp member with rfl | member
    · rw [UInt8.toNat_ofNat']
      omega
    rcases List.mem_cons.mp member with rfl | member
    · exact follow _
    rcases List.mem_cons.mp member with rfl | member
    · exact follow _
    · rw [List.mem_singleton.mp member]
      exact follow _

theorem escapeByte_high : ∀ byte : UInt8, 128 ≤ byte.toNat → escapeByte byte = [byte] := by
  intro byte high
  have apart : ∀ other : UInt8, other.toNat < 128 → byte ≠ other := by
    rintro other low rfl
    omega
  have above : ¬byte < 0x20 := by
    rw [UInt8.lt_iff_toNat_lt]
    show ¬byte.toNat < 32
    omega
  rw [escapeByte, if_neg (apart _ (by decide)), if_neg (apart _ (by decide)),
    if_neg (apart _ (by decide)), if_neg (apart _ (by decide)), if_neg (apart _ (by decide)),
    if_neg (apart _ (by decide)), if_neg (apart _ (by decide)), if_neg above]

theorem escapeChar_high {c : Char} (high : 128 ≤ c.toNat) : escapeChar c = [c] := by
  have apart : ∀ other : Char, other.toNat < 128 → c ≠ other := by
    rintro other low rfl
    omega
  rw [escapeChar, if_neg (apart _ (by decide)), if_neg (apart _ (by decide)),
    if_neg (apart _ (by decide)), if_neg (apart _ (by decide)), if_neg (apart _ (by decide)),
    if_neg (apart _ (by decide)), if_neg (apart _ (by decide)), if_neg (by omega)]

/-- Escaping the bytes of a character gives the bytes of its escape. -/
theorem flatMap_escapeByte (c : Char) :
    (String.utf8EncodeChar c).flatMap escapeByte = (escapeChar c).flatMap String.utf8EncodeChar := by
  by_cases low : c.toNat < 128
  · have ascii : ∀ code < 128, (String.utf8EncodeChar (Char.ofNat code)).flatMap escapeByte =
        (escapeChar (Char.ofNat code)).flatMap String.utf8EncodeChar := by decide
    rw [← Char.ofNat_toNat c]
    exact ascii c.toNat low
  · have high : 128 ≤ c.toNat := by omega
    have kept : (String.utf8EncodeChar c).flatMap escapeByte =
        (String.utf8EncodeChar c).flatMap fun byte => [byte] :=
      List.flatMap_congr fun byte member =>
        escapeByte_high byte (high_of_mem_utf8EncodeChar high member)
    rw [kept, List.flatMap_singleton', escapeChar_high high, List.flatMap_singleton]

theorem encode_colon (rest : List Char) :
    Text.encode (String.ofList (':' :: rest)) = 0x3A :: Text.encode (String.ofList rest) :=
  Text.encode_cons ':' rest

theorem encode_comma (rest : List Char) :
    Text.encode (String.ofList (',' :: rest)) = 0x2C :: Text.encode (String.ofList rest) :=
  Text.encode_cons ',' rest

theorem stringBytes_eq (text : String) :
    stringBytes text = Text.encode (String.ofList (stringText text)) := by
  rw [Text.encode, String.toList_ofList, stringText, List.flatMap_cons, List.flatMap_append,
    List.flatMap_assoc, stringBytes, Text.encode, List.flatMap_assoc,
    List.flatMap_congr fun c _ => flatMap_escapeByte c]
  rfl

namespace Value

/-- After the first item the rest starts with a comma. -/
theorem itemsBytes_false (item : Value) (rest : List Value) :
    itemsBytes false (item :: rest) = 0x2C :: itemsBytes true (item :: rest) := by
  simp [itemsBytes]

theorem entriesBytes_false (entry : String × Value) (rest : List (String × Value)) :
    entriesBytes false (entry :: rest) = 0x2C :: entriesBytes true (entry :: rest) := by
  cases entry
  simp [entriesBytes]

mutual

/-- The bytes of a value are those of its compact text. -/
theorem bytes_eq (value : Value) : value.bytes = Text.encode (String.ofList value.text) := by
  cases value with
  | null => rfl
  | bool value => cases value <;> rfl
  | number value => rfl
  | string text => exact stringBytes_eq text
  | array items =>
      rw [bytes, text, itemsBytes_eq items, Text.encode_cons]
      rfl
  | object entries =>
      rw [bytes, text, entriesBytes_eq entries, Text.encode_cons]
      rfl

theorem itemsBytes_eq (items : List Value) :
    itemsBytes true items = Text.encode (String.ofList (itemsText items)) := by
  cases items with
  | nil => rfl
  | cons item rest =>
      rw [itemsBytes, if_pos rfl, List.nil_append, bytes_eq item]
      have others := itemsBytes_eq rest
      cases rest with
      | nil =>
          rw [itemsText, Text.encode_append, itemsBytes]
          rfl
      | cons next more =>
          rw [itemsText, Text.encode_append, encode_comma, ← others, itemsBytes_false]
          simp

theorem entriesBytes_eq (entries : List (String × Value)) :
    entriesBytes true entries = Text.encode (String.ofList (entriesText entries)) := by
  cases entries with
  | nil => rfl
  | cons entry rest =>
      cases entry with
      | mk key value =>
          rw [entriesBytes, if_pos rfl, List.nil_append, bytes_eq value, stringBytes_eq]
          have others := entriesBytes_eq rest
          cases rest with
          | nil =>
              rw [entriesText, Text.encode_append, encode_colon, Text.encode_append, entriesBytes]
              rfl
          | cons next more =>
              rw [entriesText, Text.encode_append, encode_colon, Text.encode_append, encode_comma,
                ← others, entriesBytes_false]
              simp

end

end Value

end Json
