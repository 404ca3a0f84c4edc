import SynthHiresBridge.Data.Text

namespace Text

theorem toNat_byte {code : Nat} (small : code < 256) : (UInt8.ofNat code).toNat = code := by
  rw [UInt8.toNat_ofNat']
  exact Nat.mod_eq_of_lt small

/-- A byte that follows gives six bits more. -/
theorem follow_byte {count low high bits code : Nat} {rest : List UInt8}
    (above : low ≤ code % 64 + 128) (below : code % 64 + 128 ≤ high) :
    follow (count + 1) low high bits (UInt8.ofNat (code % 64 + 128) :: rest) =
      follow count 0x80 0xBF (bits * 64 + code % 64) rest := by
  have byte : (UInt8.ofNat (code % 64 + 128)).toNat = code % 64 + 128 := toNat_byte (by omega)
  have own : (code % 64 + 128) % 64 = code % 64 := by omega
  rw [follow, byte, if_pos ⟨above, below⟩, own]

theorem lead_two {code : Nat} (more : 2 ≤ code) (less : code < 32) :
    lead (code + 0xC0) = some (1, 0x80, 0xBF, code) := by
  unfold lead
  rw [if_neg (by omega), if_neg (by omega), if_pos (by omega), Nat.add_sub_cancel]

/-- The range of the second byte depends on a first byte of three. -/
theorem lead_three {code : Nat} (less : code < 16) : lead (code + 0xE0) =
    some (2, if code = 0 then 0xA0 else 0x80, if code = 13 then 0x9F else 0xBF, code) := by
  have cases : ∀ code < 16, lead (code + 0xE0) =
      some (2, if code = 0 then 0xA0 else 0x80, if code = 13 then 0x9F else 0xBF, code) := by decide
  exact cases code less

theorem lead_four {code : Nat} (less : code < 5) : lead (code + 0xF0) =
    some (3, if code = 0 then 0x90 else 0x80, if code = 4 then 0x8F else 0xBF, code) := by
  have cases : ∀ code < 5, lead (code + 0xF0) =
      some (3, if code = 0 then 0x90 else 0x80, if code = 4 then 0x8F else 0xBF, code) := by decide
  exact cases code less

/-- One step reads the bytes of one character. -/
theorem decodeFrom_char (fuel : Nat) (char : Char) (rest : List UInt8) :
    decodeFrom (fuel + 1) (String.utf8EncodeChar char ++ rest) =
      some char :: decodeFrom fuel rest := by
  have valid : char.toNat < 0xD800 ∨ 0xDFFF < char.toNat ∧ char.toNat < 0x110000 := char.valid
  have back : Char.ofNat char.toNat = char := Char.ofNat_toNat char
  have code : char.val.toNat = char.toNat := rfl
  simp only [String.utf8EncodeChar, code]
  generalize char.toNat = v at valid back
  split
  · have byte : (UInt8.ofNat v).toNat = v := toNat_byte (by omega)
    have one : lead v = some (0, 0x80, 0xBF, v) := by
      unfold lead
      rw [if_pos (by omega)]
    simp only [List.cons_append, List.nil_append, decodeFrom, byte, one, follow, back]
  · split
    · have quotient : v / 64 % 32 = v / 64 := by omega
      have byte : (UInt8.ofNat (v / 64 + 0xC0)).toNat = v / 64 + 0xC0 := toNat_byte (by omega)
      have bits : v / 64 * 64 + v % 64 = v := by omega
      simp only [List.cons_append, List.nil_append, decodeFrom, quotient, byte,
        lead_two (show 2 ≤ v / 64 by omega) (by omega)]
      rw [follow_byte (by omega) (by omega), follow, bits, back]
    · split
      · have quotient : v / 4096 % 16 = v / 4096 := by omega
        have byte : (UInt8.ofNat (v / 4096 + 0xE0)).toNat = v / 4096 + 0xE0 := toNat_byte (by omega)
        have bits : (v / 4096 * 64 + v / 64 % 64) * 64 + v % 64 = v := by omega
        simp only [List.cons_append, List.nil_append, decodeFrom, quotient, byte,
          lead_three (show v / 4096 < 16 by omega)]
        rw [follow_byte (by split <;> omega) (by split <;> omega), follow_byte (by omega) (by omega),
          follow, bits, back]
      · have quotient : v / 262144 % 8 = v / 262144 := by omega
        have byte : (UInt8.ofNat (v / 262144 + 0xF0)).toNat = v / 262144 + 0xF0 :=
          toNat_byte (by omega)
        have bits : ((v / 262144 * 64 + v / 4096 % 64) * 64 + v / 64 % 64) * 64 + v % 64 = v := by
          omega
        simp only [List.cons_append, List.nil_append, decodeFrom, quotient, byte,
          lead_four (show v / 262144 < 5 by omega)]
        rw [follow_byte (by split <;> omega) (by split <;> omega), follow_byte (by omega) (by omega),
          follow_byte (by omega) (by omega), follow, bits, back]

theorem decodeFrom_chars {fuel : Nat} {chars : List Char} (enough : chars.length ≤ fuel) :
    decodeFrom fuel (chars.flatMap String.utf8EncodeChar) = chars.map some := by
  induction chars generalizing fuel with
  | nil => cases fuel <;> rfl
  | cons char rest ih =>
      cases fuel with
      | zero => cases enough
      | succ fuel =>
          rw [List.flatMap_cons, decodeFrom_char, List.map_cons]
          exact congrArg (some char :: ·) (ih (Nat.le_of_succ_le_succ enough))

theorem length_le_length_encode (text : String) : text.toList.length ≤ (encode text).length := by
  rw [encode, List.length_flatMap]
  induction text.toList with
  | nil => exact Nat.zero_le _
  | cons char rest ih =>
      have one : 1 ≤ (String.utf8EncodeChar char).length :=
        List.length_pos_of_ne_nil String.utf8EncodeChar_ne_nil
      rw [List.length_cons, List.map_cons, List.sum_cons]
      omega

theorem decode_encode (text : String) : decode (encode text) = text.toList.map some :=
  decodeFrom_chars (length_le_length_encode text)

/-- The bytes of a text are read as that text. -/
theorem lossy_encode (text : String) : lossy (encode text) = text := by
  rw [lossy, decode_encode, List.map_map]
  have same : ((fun char : Option Char => char.getD '\uFFFD') ∘ some) = id := rfl
  rw [same, List.map_id, String.ofList_toList]

/-- No part of the bytes of a text is invalid. -/
theorem strict_encode (text : String) : strict (encode text) = some text := by
  have all : ∀ chars : List Char, (chars.map some).mapM id = some chars := by
    intro chars
    induction chars with
    | nil => rfl
    | cons char rest ih =>
        rw [List.map_cons, List.mapM_cons, ih]
        rfl
  rw [strict, decode_encode, all, Option.map_some, String.ofList_toList]

theorem utf8EncodeChar_ascii {char : Char} (ascii : char.toNat < 128) :
    String.utf8EncodeChar char = [UInt8.ofNat char.toNat] := by
  have below : char.val.toNat ≤ 0x7f := Nat.le_of_lt_succ ascii
  simp only [String.utf8EncodeChar, below, if_true]
  rfl

/-- A text of ASCII has one byte for each character. -/
theorem encode_ascii {chars : List Char} (ascii : ∀ char ∈ chars, char.toNat < 128) :
    encode (String.ofList chars) = chars.map fun char => UInt8.ofNat char.toNat := by
  rw [encode, String.toList_ofList]
  induction chars with
  | nil => rfl
  | cons first rest ih =>
      obtain ⟨small, later⟩ := List.forall_mem_cons.mp ascii
      rw [List.flatMap_cons, List.map_cons, utf8EncodeChar_ascii small, ih later,
        List.singleton_append]

end Text
