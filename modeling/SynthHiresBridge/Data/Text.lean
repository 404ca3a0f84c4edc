import Mathlib.Data.List.Basic

namespace Text

/-- A scalar value is the code of its character. -/
theorem toNat_ofNat {code : Nat} (valid : code.isValidChar) : (Char.ofNat code).toNat = code := by
  rw [Char.ofNat, dif_pos valid]
  rfl

/-- A check of every character of a text. -/
theorem forall_of_all {text : List Char} {Holds : Char → Prop} [DecidablePred Holds]
    (all : (text.all fun char => decide (Holds char)) = true) : ∀ char ∈ text, Holds char := by
  intro char member
  exact of_decide_eq_true (List.all_eq_true.mp all char member)

/-- Text becomes bytes one character at a time. -/
def encode (text : String) : List UInt8 :=
  text.toList.flatMap String.utf8EncodeChar

theorem encode_injective : Function.Injective encode := by
  intro first second same
  rw [← String.toByteArray_inj, ← String.utf8Encode_toList, ← String.utf8Encode_toList]
  exact congrArg List.toByteArray same

theorem encode_cons (char : Char) (rest : List Char) : encode (String.ofList (char :: rest)) =
    String.utf8EncodeChar char ++ encode (String.ofList rest) := by
  simp only [encode, String.toList_ofList, List.flatMap_cons]

theorem encode_append (first second : List Char) : encode (String.ofList (first ++ second)) =
    encode (String.ofList first) ++ encode (String.ofList second) := by
  simp only [encode, String.toList_ofList, List.flatMap_append]

theorem encode_string_append (first second : String) :
    encode (first ++ second) = encode first ++ encode second := by
  simp only [encode, String.toList_append, List.flatMap_append]

theorem fromUTF8?_encode (text : String) :
    String.fromUTF8? (encode text).toByteArray = some text := by
  have same : (encode text).toByteArray = text.toByteArray := String.utf8Encode_toList
  rw [same, String.fromUTF8?, dif_pos]
  rfl

/-- A lead byte gives the count of bytes that follow, the range of the next one and its own bits. -/
def lead (byte : Nat) : Option (Nat × Nat × Nat × Nat) :=
  if byte < 0x80 then some (0, 0x80, 0xBF, byte)
  else if byte < 0xC2 then none
  else if byte < 0xE0 then some (1, 0x80, 0xBF, byte - 0xC0)
  else if byte = 0xE0 then some (2, 0xA0, 0xBF, 0)
  else if byte = 0xED then some (2, 0x80, 0x9F, 0xD)
  else if byte < 0xF0 then some (2, 0x80, 0xBF, byte - 0xE0)
  else if byte = 0xF0 then some (3, 0x90, 0xBF, 0)
  else if byte < 0xF4 then some (3, 0x80, 0xBF, byte - 0xF0)
  else if byte = 0xF4 then some (3, 0x80, 0x8F, 4)
  else none

/-- The bytes that follow a lead byte complete its character, or the part read so far is invalid
and the byte that does not fit starts the next part. -/
def follow : Nat → Nat → Nat → Nat → List UInt8 → Option Char × List UInt8
  | 0, _, _, bits, rest => (some (Char.ofNat bits), rest)
  | _ + 1, _, _, _, [] => (none, [])
  | count + 1, low, high, bits, byte :: rest =>
      if low ≤ byte.toNat ∧ byte.toNat ≤ high then
        follow count 0x80 0xBF (bits * 64 + byte.toNat % 64) rest
      else (none, byte :: rest)

/-- Decoding takes at most one step for each byte. -/
def decodeFrom : Nat → List UInt8 → List (Option Char)
  | 0, _ => []
  | _, [] => []
  | fuel + 1, byte :: rest =>
      match lead byte.toNat with
      | none => none :: decodeFrom fuel rest
      | some (count, low, high, bits) =>
          let step := follow count low high bits rest
          step.1 :: decodeFrom fuel step.2

/-- Decoding lists the characters, and each invalid part is one missing character. -/
def decode (bytes : List UInt8) : List (Option Char) :=
  decodeFrom bytes.length bytes

/-- `String::from_utf8_lossy` puts a replacement character for each invalid part. -/
def lossy (bytes : List UInt8) : String :=
  String.ofList ((decode bytes).map fun char => char.getD '\uFFFD')

/-- `String::from_utf8` needs every part to be valid. -/
def strict (bytes : List UInt8) : Option String :=
  ((decode bytes).mapM id).map String.ofList

/-- Text pieces keep their newline, as `split_inclusive` gives them. -/
def splitInclusive : List Char → List (List Char)
  | [] => []
  | char :: rest =>
      if char = '\n' then [char] :: splitInclusive rest
      else match splitInclusive rest with
        | [] => [[char]]
        | piece :: pieces => (char :: piece) :: pieces

/-- One suffix is dropped when it is there. -/
def stripLast (char : Char) (line : List Char) : Option (List Char) :=
  if line.getLast? = some char then some line.dropLast else none

/-- `str::lines` drops the newline of each line and a carriage return before it. -/
def lines (text : String) : List String :=
  (splitInclusive text.toList).map fun piece => String.ofList <|
    match stripLast '\n' piece with
    | none => piece
    | some line => (stripLast '\r' line).getD line

/-- The characters with the Unicode property White_Space. -/
def isWhitespace (char : Char) : Bool :=
  let code := char.toNat
  (9 ≤ code && code ≤ 13) || (0x2000 ≤ code && code ≤ 0x200A) ||
    [0x20, 0x85, 0xA0, 0x1680, 0x2028, 0x2029, 0x202F, 0x205F, 0x3000].contains code

/-- `str::trim` drops white space at both ends. -/
def trim (text : String) : String :=
  String.ofList ((text.toList.dropWhile isWhitespace).reverse.dropWhile isWhitespace).reverse

/-- `str::split` cuts a text at every character of a kind. -/
def split (text : String) (cuts : Char → Bool) : List String :=
  (text.toList.splitOnP cuts).map String.ofList

/-- `str::split_whitespace` drops the empty pieces between white space. -/
def splitWhitespace (text : String) : List String :=
  (split text isWhitespace).filter (· ≠ "")

/-- `str::contains` looks for a pattern at every position. -/
def contains (text pattern : String) : Bool :=
  text.toList.tails.any pattern.toList.isPrefixOf

/-- The pattern is replaced from the left, and no part of the text is used twice. -/
def replaceFrom (pattern replacement : List Char) : Nat → List Char → List Char
  | 0, rest => rest
  | _, [] => []
  | fuel + 1, char :: rest =>
      if pattern.isPrefixOf (char :: rest) then
        replacement ++ replaceFrom pattern replacement fuel ((char :: rest).drop pattern.length)
      else char :: replaceFrom pattern replacement fuel rest

/-- `str::replace` for a pattern that is not empty. -/
def replace (text pattern replacement : String) : String :=
  String.ofList (replaceFrom pattern.toList replacement.toList text.length text.toList)

example : lines "a\r\nb\nc\r" = ["a", "b", "c\r"] := by decide

example : lossy [0x61, 0xE2, 0x82, 0x61] = "a\uFFFDa" := by decide

end Text
