import SynthHiresBridge.Data.Utf8

namespace Text

/-- `str::is_char_boundary` holds at both ends and before the first byte of a character. -/
def isCharBoundary (bytes : List UInt8) (index : Nat) : Bool :=
  if index = 0 then true
  else match bytes[index]? with
    | none => index == bytes.length
    | some byte => byte.toNat < 0x80 || 0xC0 ≤ byte.toNat

/-- `String::replace_range` panics where an end of its range is no character boundary. -/
def replaceRange (bytes : List UInt8) (start stop : Nat) (text : String) : Option (List UInt8) :=
  if isCharBoundary bytes start && isCharBoundary bytes stop && start ≤ stop then
    some (bytes.take start ++ encode text ++ bytes.drop stop)
  else none

/-- These bytes are a text. -/
def Whole (bytes : List UInt8) : Prop := ∃ text, encode text = bytes

theorem Whole.append {front rest : List UInt8} (first : Whole front) (second : Whole rest) :
    Whole (front ++ rest) := by
  obtain ⟨text, rfl⟩ := first
  obtain ⟨more, rfl⟩ := second
  exact ⟨text ++ more, encode_string_append text more⟩

/-- The first byte of a character does not continue one. -/
theorem utf8EncodeChar_first (char : Char) : ∃ byte rest,
    String.utf8EncodeChar char = byte :: rest ∧ (byte.toNat < 0x80 ∨ 0xC0 ≤ byte.toNat) := by
  obtain ⟨byte, rest, bytes⟩ := List.exists_cons_of_ne_nil (String.utf8EncodeChar_ne_nil (c := char))
  have read := decodeFrom_char 0 char []
  rw [bytes, List.append_nil] at read
  refine ⟨byte, rest, bytes, ?_⟩
  by_contra between
  have none : lead byte.toNat = none := by
    unfold lead
    rw [if_neg (by omega), if_pos (by omega)]
  simp only [decodeFrom, none] at read
  cases (List.cons.inj read).1

/-- A text that begins with a character. -/
theorem encode_eq_append_char {text : String} {char : Char} {rest : List UInt8}
    (same : encode text = String.utf8EncodeChar char ++ rest) :
    ∃ more, text = String.ofList (char :: more) ∧ rest = encode (String.ofList more) := by
  cases chars : text.toList with
  | nil =>
      rw [encode, chars] at same
      have none := List.append_eq_nil_iff.mp same.symm
      exact absurd none.1 String.utf8EncodeChar_ne_nil
  | cons first more =>
      have spelled : text = String.ofList (first :: more) := by
        rw [← chars, String.ofList_toList]
      rw [spelled, encode_cons] at same
      have heads := congrArg (decodeFrom 1) same
      rw [decodeFrom_char, decodeFrom_char] at heads
      obtain rfl := Option.some.inj (List.cons.inj heads).1
      exact ⟨more, spelled, (List.append_cancel_left same).symm⟩

/-- What follows a text in a text is a text. -/
theorem Whole.leaves {front rest : List UInt8} (first : Whole front)
    (whole : Whole (front ++ rest)) : Whole rest := by
  obtain ⟨text, rfl⟩ := first
  obtain ⟨other, same⟩ := whole
  have bytes : encode text = text.toList.flatMap String.utf8EncodeChar := rfl
  rw [bytes] at same
  generalize text.toList = chars at same
  clear bytes
  induction chars generalizing other with
  | nil => exact ⟨other, same⟩
  | cons char chars ih =>
      rw [List.flatMap_cons, List.append_assoc] at same
      obtain ⟨more, -, left⟩ := encode_eq_append_char same
      exact ih (String.ofList more) left.symm

/-- A text may be cut where its rest is a text. -/
theorem isCharBoundary_of_drop {bytes : List UInt8} {index : Nat} (inside : index ≤ bytes.length)
    (rest : Whole (bytes.drop index)) : isCharBoundary bytes index = true := by
  rw [isCharBoundary]
  split_ifs
  · rfl
  · obtain ⟨text, same⟩ := rest
    have here : bytes[index]? = (encode text)[0]? := by
      rw [same, List.getElem?_drop, Nat.add_zero]
    cases chars : text.toList with
    | nil =>
        rw [encode, chars] at here same
        have long : bytes.length ≤ index := List.drop_eq_nil_iff.mp same.symm
        rw [here]
        exact beq_iff_eq.mpr (Nat.le_antisymm inside long)
    | cons char more =>
        obtain ⟨byte, others, bytes, lead⟩ := utf8EncodeChar_first char
        rw [encode, chars, List.flatMap_cons, bytes] at here
        rw [here]
        simpa using lead

/-- Every byte of a character but the first continues it. -/
theorem continues_of_mem_tail {char : Char} {byte : UInt8}
    (member : byte ∈ (String.utf8EncodeChar char).tail) :
    0x80 ≤ byte.toNat ∧ byte.toNat < 0xC0 := by
  have six : ∀ code : Nat, (UInt8.ofNat (code % 64 + 0x80)).toNat = code % 64 + 0x80 :=
    fun code => toNat_byte (by omega)
  unfold String.utf8EncodeChar at member
  generalize char.val.toNat = code at member
  simp only at member
  split_ifs at member
  · cases member
  · rw [List.tail_cons, List.mem_singleton] at member
    rw [member, six]
    omega
  · rw [List.tail_cons, List.mem_cons, List.mem_singleton] at member
    rcases member with rfl | rfl <;> rw [six] <;> omega
  · rw [List.tail_cons, List.mem_cons, List.mem_cons, List.mem_singleton] at member
    rcases member with rfl | rfl | rfl <;> rw [six] <;> omega

/-- A place inside a character is no boundary. -/
theorem not_isCharBoundary {front rest : List UInt8} {char : Char} {index : Nat}
    (after : front.length < index)
    (before : index < front.length + (String.utf8EncodeChar char).length) :
    isCharBoundary (front ++ String.utf8EncodeChar char ++ rest) index = false := by
  obtain ⟨place, rfl⟩ : ∃ place, index = front.length + (place + 1) :=
    ⟨index - front.length - 1, by omega⟩
  have short : place + 1 < (String.utf8EncodeChar char).length := by omega
  have held : (String.utf8EncodeChar char)[place + 1]? =
      some (String.utf8EncodeChar char)[place + 1] := List.getElem?_eq_getElem short
  have tail : (String.utf8EncodeChar char)[place + 1] ∈ (String.utf8EncodeChar char).tail := by
    rw [List.mem_iff_getElem?]
    exact ⟨place, by rw [List.getElem?_tail, held]⟩
  obtain ⟨low, high⟩ := continues_of_mem_tail tail
  rw [isCharBoundary, if_neg (by omega),
    List.getElem?_append_left (by rw [List.length_append]; omega),
    List.getElem?_append_right (by omega), Nat.add_sub_cancel_left, held]
  simp only [Bool.or_eq_false_iff, decide_eq_false_iff_not]
  omega

theorem length_encode (text : String) : (encode text).length = text.utf8ByteSize := by
  have same : (encode text).toByteArray = text.toByteArray := String.utf8Encode_toList
  rw [← String.size_toByteArray, ← same, List.size_toByteArray]

/-- A text is cut in two texts where no character is cut. -/
theorem cut_of_boundary {text : String} {index : Nat} (inside : index ≤ (encode text).length)
    (boundary : isCharBoundary (encode text) index = true) :
    ∃ front rest, text = front ++ rest ∧ encode front = (encode text).take index := by
  obtain ⟨chars, rfl⟩ : ∃ chars, text = String.ofList chars := ⟨text.toList, by simp⟩
  induction chars generalizing index with
  | nil =>
      refine ⟨"", "", rfl, ?_⟩
      rw [Nat.le_zero.mp inside]
      rfl
  | cons char rest ih =>
      rcases Nat.eq_zero_or_pos index with rfl | positive
      · exact ⟨"", String.ofList (char :: rest), by simp, rfl⟩
      rw [encode_cons] at inside boundary ⊢
      rcases Nat.lt_or_ge index (String.utf8EncodeChar char).length with short | long
      · -- a byte that continues a character is not the first of one
        have inner : isCharBoundary ([] ++ String.utf8EncodeChar char ++
            encode (String.ofList rest)) index = false :=
          not_isCharBoundary positive (by rwa [List.length_nil, Nat.zero_add])
        rw [List.nil_append, boundary] at inner
        cases inner
      · obtain ⟨later, rfl⟩ := Nat.exists_eq_add_of_le long
        have next : isCharBoundary (encode (String.ofList rest)) later = true := by
          rw [isCharBoundary, if_neg (by omega), List.getElem?_append_right (by omega),
            Nat.add_sub_cancel_left, List.length_append] at boundary
          rw [isCharBoundary]
          split_ifs with first
          · rfl
          · cases held : (encode (String.ofList rest))[later]? with
            | none =>
                rw [held] at boundary
                simp only [beq_iff_eq] at boundary ⊢
                omega
            | some byte =>
                rw [held] at boundary
                exact boundary
        obtain ⟨front, back, same, bytes⟩ := ih (by rw [List.length_append] at inside; omega) next
        refine ⟨String.ofList [char] ++ front, back, ?_, ?_⟩
        · rw [← List.singleton_append, String.ofList_append, same, String.append_assoc]
        · rw [encode_string_append, bytes, List.take_append, List.take_of_length_le long,
            Nat.add_sub_cancel_left]
          congr 1
          rw [encode_cons]
          exact List.append_nil _

/-- A character that ends too early is not read. -/
theorem follow_partial {count low high bits : Nat} {short more : List UInt8} {char : Char}
    (left : more ≠ []) (whole : follow count low high bits (short ++ more) = (some char, [])) :
    follow count low high bits short = (none, []) := by
  induction count generalizing low high bits short with
  | zero =>
      have ended : short ++ more = [] := (Prod.mk.inj whole).2
      exact absurd (List.append_eq_nil_iff.mp ended).2 left
  | succ count ih =>
      cases short with
      | nil => rfl
      | cons byte short =>
          rw [List.cons_append, follow] at whole
          rw [follow]
          split_ifs at whole ⊢ with fits
          · exact ih whole
          · cases (Prod.mk.inj whole).1

theorem decodeFrom_partial (fuel : Nat) {short more : List UInt8} {char : Char} (begun : short ≠ [])
    (left : more ≠ []) (whole : short ++ more = String.utf8EncodeChar char) :
    none ∈ decodeFrom (fuel + 1) short := by
  obtain ⟨byte, short, rfl⟩ := List.exists_cons_of_ne_nil begun
  have read := decodeFrom_char 1 char []
  rw [List.append_nil, ← whole, List.cons_append] at read
  rw [decodeFrom]
  cases first : lead byte.toNat with
  | none => exact List.mem_cons_self
  | some fields =>
      obtain ⟨count, low, high, bits⟩ := fields
      simp only [decodeFrom, first] at read
      obtain ⟨value, rest⟩ := List.cons.inj read
      have ended : (follow count low high bits (short ++ more)).2 = [] := by
        cases after : (follow count low high bits (short ++ more)).2 with
        | nil => rfl
        | cons next later =>
            rw [after] at rest
            simp only [decodeFrom] at rest
            split at rest <;> cases rest
      have partly := follow_partial left (Prod.ext value ended)
      simp only [partly]
      exact List.mem_cons_self

theorem strict_of_invalid {bytes : List UInt8} (invalid : none ∈ decode bytes) :
    strict bytes = none := by
  have stops : ∀ parts : List (Option Char), none ∈ parts → parts.mapM id = none := by
    intro parts member
    induction parts with
    | nil => cases member
    | cons part parts ih =>
        rw [List.mapM_cons]
        rcases List.mem_cons.mp member with same | later
        · rw [← same]
          rfl
        · rw [ih later]
          cases part <;> rfl
  rw [strict, stops _ invalid, Option.map_none]

/-- A place that is a boundary of the rest of a text is a boundary of the text. -/
theorem isCharBoundary_cons {char : Char} {rest : List Char} {index : Nat}
    (inside : index ≤ (encode (String.ofList rest)).length)
    (boundary : isCharBoundary (encode (String.ofList rest)) index = true) :
    isCharBoundary (encode (String.ofList (char :: rest)))
      ((String.utf8EncodeChar char).length + index) = true := by
  obtain ⟨front, back, same, bytes⟩ := cut_of_boundary inside boundary
  apply isCharBoundary_of_drop
  · rw [encode_cons, List.length_append]
    omega
  · refine ⟨back, ?_⟩
    rw [encode_cons, List.drop_append, List.drop_of_length_le (Nat.le_add_right _ _),
      List.nil_append, Nat.add_sub_cancel_left]
    have whole : (encode (String.ofList rest)).take index ++
        (encode (String.ofList rest)).drop index =
        (encode (String.ofList rest)).take index ++ encode back := by
      rw [List.take_append_drop, ← bytes, ← encode_string_append, ← same]
    exact (List.append_cancel_left whole).symm

/-- A text that is cut inside a character is not read. -/
theorem strict_take_none {text : String} {index : Nat} (inside : index ≤ (encode text).length)
    (inner : isCharBoundary (encode text) index = false) :
    strict ((encode text).take index) = none := by
  obtain ⟨chars, rfl⟩ : ∃ chars, text = String.ofList chars := ⟨text.toList, by simp⟩
  apply strict_of_invalid
  rw [decode, List.length_take, Nat.min_eq_left inside]
  have every : ∀ fuel, index ≤ fuel →
      none ∈ decodeFrom fuel ((encode (String.ofList chars)).take index) := by
    intro fuel enough
    induction chars generalizing index fuel with
    | nil =>
        obtain rfl : index = 0 := Nat.le_zero.mp inside
        cases inner
    | cons char rest ih =>
        have positive : index ≠ 0 := by
          rintro rfl
          cases inner
        obtain ⟨fuel, rfl⟩ : ∃ less, fuel = less + 1 := ⟨fuel - 1, by omega⟩
        have some : 1 ≤ (String.utf8EncodeChar char).length :=
          List.length_pos_of_ne_nil String.utf8EncodeChar_ne_nil
        rw [encode_cons] at inside ⊢
        rcases Nat.lt_or_ge index (String.utf8EncodeChar char).length with short | long
        · rw [List.take_append_of_le_length (Nat.le_of_lt short)]
          refine decodeFrom_partial fuel ?_ ?_ (List.take_append_drop index _)
          · rw [← List.length_pos_iff, List.length_take]
            omega
          · rw [← List.length_pos_iff, List.length_drop]
            omega
        · obtain ⟨later, rfl⟩ := Nat.exists_eq_add_of_le long
          rw [List.length_append] at inside
          have within : later ≤ (encode (String.ofList rest)).length := by omega
          have next : isCharBoundary (encode (String.ofList rest)) later = false := by
            rw [Bool.eq_false_iff]
            intro boundary
            rw [isCharBoundary_cons within boundary] at inner
            cases inner
          rw [List.take_append, List.take_of_length_le long, Nat.add_sub_cancel_left,
            decodeFrom_char]
          exact List.mem_cons_of_mem _ (ih within next fuel (by omega))
  exact every index (Nat.le_refl index)

end Text
