import SynthHiresBridge.Data.BitGroups
import SynthHiresBridge.Data.JsonBytes
import SynthHiresBridge.Data.Utf8
import SynthHiresBridge.Daemon.Base64

namespace Daemon.Base64

open BitGroups

theorem symbolBits_alphabet :
    ∀ index < 64, symbolBits (alphabet.getD index '=') = some index := by decide

theorem alphabet_solid : ∀ index < 64, alphabet.getD index '=' ≠ '=' ∧
    " \t\r\n".toList.contains (alphabet.getD index '=') = false := by decide +kernel

theorem decodeChars_symbol (filled : List Nat) (bits : Nat) (rest : List Char) :
    decodeChars filled (symbol bits :: rest) =
      if filled.length = 3 then
        (group (filled ++ [bits % 64])).bind fun bytes => (decodeChars [] rest).map (bytes ++ ·)
      else decodeChars (filled ++ [bits % 64]) rest := by
  have small : bits % 64 < 64 := Nat.mod_lt bits (by decide)
  have solid := (alphabet_solid _ small).1
  have known := symbolBits_alphabet _ small
  rw [symbol, decodeChars, known]
  exact solid

/-- Four symbols make a group. -/
theorem decodeChars_group (first second third fourth : Nat) (rest : List Char) :
    decodeChars [] (symbol first :: symbol second :: symbol third :: symbol fourth :: rest) =
      (decodeChars [] rest).map fun bytes =>
        UInt8.ofNat (first % 64 * 4 + second % 64 / 16) ::
          UInt8.ofNat (second % 64 * 16 + third % 64 / 4) ::
          UInt8.ofNat (third % 64 * 64 + fourth % 64) :: bytes := by
  rw [decodeChars_symbol, if_neg (by decide), decodeChars_symbol, if_neg (by simp),
    decodeChars_symbol, if_neg (by simp), decodeChars_symbol, if_pos (by simp)]
  rfl

theorem ofNat_eq {number : Nat} {byte : UInt8} (same : number % 256 = byte.toNat) :
    UInt8.ofNat number = byte := by
  apply UInt8.toNat_inj.mp
  rw [UInt8.toNat_ofNat']
  exact same

theorem decodeChars_encodeChars (bytes : List UInt8) :
    decodeChars [] (encodeChars bytes) = some bytes := by
  induction bytes using encodeChars.induct with
  | case1 first second third rest ih =>
      have one := first.toNat_lt
      have two := second.toNat_lt
      have three := third.toNat_lt
      rw [encodeChars, decodeChars_group, ih, Option.map_some]
      congr 2
      · apply ofNat_eq
        omega
      · congr 1
        · apply ofNat_eq
          omega
        · congr 1
          apply ofNat_eq
          omega
  | case2 first second =>
      have one := first.toNat_lt
      have two := second.toNat_lt
      rw [encodeChars, decodeChars_symbol, if_neg (by decide), decodeChars_symbol,
        if_neg (by simp), decodeChars_symbol, if_neg (by simp), decodeChars]
      simp only [List.nil_append, List.cons_append, group]
      congr 2
      · apply ofNat_eq
        omega
      · congr 1
        apply ofNat_eq
        omega
  | case3 first =>
      have one := first.toNat_lt
      rw [encodeChars, decodeChars_symbol, if_neg (by decide), decodeChars_symbol,
        if_neg (by simp), decodeChars]
      simp only [List.nil_append, List.cons_append, group]
      congr 2
      apply ofNat_eq
      omega
  | case4 => rfl

/-- No symbol is white space. -/
theorem encodeChars_solid (bytes : List UInt8) :
    ∀ char ∈ encodeChars bytes, " \t\r\n".toList.contains char = false := by
  have solid : ∀ bits, " \t\r\n".toList.contains (symbol bits) = false :=
    fun bits => (alphabet_solid _ (Nat.mod_lt bits (by decide))).2
  have padding : " \t\r\n".toList.contains '=' = false := by decide
  induction bytes using encodeChars.induct with
  | case1 first second third rest ih =>
      rw [encodeChars]
      simp only [List.forall_mem_cons]
      exact ⟨solid _, solid _, solid _, solid _, ih⟩
  | case2 first second =>
      rw [encodeChars]
      simp only [List.forall_mem_cons]
      exact ⟨solid _, solid _, solid _, padding, List.forall_mem_nil _⟩
  | case3 first =>
      rw [encodeChars]
      simp only [List.forall_mem_cons]
      exact ⟨solid _, solid _, padding, padding, List.forall_mem_nil _⟩
  | case4 => exact List.forall_mem_nil _

/-- What is encoded is decoded again. -/
theorem base64Decode_base64Encode (bytes : List UInt8) :
    base64Decode (base64Encode bytes) = some bytes := by
  have spelled : (base64Encode bytes).toList = encodeChars bytes := String.toList_ofList
  have kept : (encodeChars bytes).filter (fun char => !" \t\r\n".toList.contains char) =
      encodeChars bytes := by
    apply List.filter_eq_self.mpr
    intro char member
    rw [encodeChars_solid bytes char member]
    rfl
  unfold base64Decode
  rw [spelled, kept, decodeChars_encodeChars]

section Words

variable (first second third : UInt8)

/-- A byte enters an empty word at its place. -/
theorem toNat_enter (byte : UInt8) {shift : Nat} (room : shift ≤ 24) :
    (byte.toUInt32 <<< UInt32.ofNat shift).toNat = byte.toNat * 2 ^ shift := by
  have amount : (UInt32.ofNat shift).toNat % 32 = shift := by
    rw [UInt32.toNat_ofNat']
    omega
  have bound : byte.toNat * 2 ^ shift < 2 ^ 8 * 2 ^ 24 :=
    Nat.mul_lt_mul_of_lt_of_le byte.toNat_lt (Nat.pow_le_pow_right (by decide) room)
      (Nat.two_pow_pos _)
  rw [UInt32.toNat_shiftLeft, amount, UInt8.toNat_toUInt32, Nat.shiftLeft_eq,
    Nat.mod_eq_of_lt (show _ < 2 ^ 32 from bound)]

theorem toNat_one : (first.toUInt32 <<< 16).toNat = first.toNat * 2 ^ 16 :=
  toNat_enter first (show 16 ≤ 24 by decide)

theorem toNat_two : (first.toUInt32 <<< 16 ||| second.toUInt32 <<< 8).toNat =
    first.toNat * 2 ^ 16 + second.toNat * 2 ^ 8 := by
  have low : second.toNat * 2 ^ 8 < 2 ^ 16 := by
    have small := second.toNat_lt
    omega
  have entered : (second.toUInt32 <<< 8).toNat = second.toNat * 2 ^ 8 :=
    toNat_enter second (show 8 ≤ 24 by decide)
  rw [UInt32.toNat_or, toNat_one, entered, ← Nat.shiftLeft_eq first.toNat,
    ← Nat.shiftLeft_add_eq_or_of_lt low]

theorem toNat_three :
    (first.toUInt32 <<< 16 ||| second.toUInt32 <<< 8 ||| third.toUInt32).toNat =
      first.toNat * 2 ^ 16 + second.toNat * 2 ^ 8 + third.toNat := by
  have split : first.toNat * 2 ^ 16 + second.toNat * 2 ^ 8 =
      (first.toNat * 2 ^ 8 + second.toNat) <<< 8 := by
    rw [Nat.shiftLeft_eq]
    omega
  rw [UInt32.toNat_or, toNat_two, UInt8.toNat_toUInt32, split,
    ← Nat.shiftLeft_add_eq_or_of_lt third.toNat_lt]

end Words

theorem pick_eq (word : UInt32) : pick word = symbol word.toNat := by
  have low : (word &&& 0x3f).toNat = word.toNat % 64 := by
    rw [UInt32.toNat_and]
    exact Nat.and_two_pow_sub_one_eq_mod _ 6
  rw [pick, low, symbol]

theorem pick_shift {word : UInt32} {number : Nat} (same : word.toNat = number) (shift : Nat)
    (room : shift < 32) : pick (word >>> UInt32.ofNat shift) = symbol (number / 2 ^ shift) := by
  have amount : (UInt32.ofNat shift).toNat % 32 = shift := by
    rw [UInt32.toNat_ofNat']
    omega
  rw [pick_eq, UInt32.toNat_shiftRight, amount, Nat.shiftRight_eq_div_pow, same]

/-- A word of three bytes gives the four symbols of its group. -/
theorem picks {word : UInt32} {number : Nat} (same : word.toNat = number) :
    pick (word >>> 18) = symbol (number / 2 ^ 18) ∧ pick (word >>> 12) = symbol (number / 2 ^ 12) ∧
      pick (word >>> 6) = symbol (number / 2 ^ 6) ∧ pick word = symbol number := by
  refine ⟨pick_shift same 18 (by decide), pick_shift same 12 (by decide),
    pick_shift same 6 (by decide), ?_⟩
  rw [pick_eq, same]

/-- The rest of a list from an index on begins with the item at it. -/
theorem drop_eq_getD_cons {bytes : List UInt8} {i : Nat} (inside : i < bytes.length) :
    bytes.drop i = bytes.getD i 0 :: bytes.drop (i + 1) := by
  rw [List.drop_eq_getElem_cons inside, List.getD_eq_getElem?_getD,
    List.getElem?_eq_getElem inside, Option.getD_some]

theorem encodeTail_eq {bytes : List UInt8} {i : Nat} (few : ¬i + 3 ≤ bytes.length) :
    Fs.encodeTail bytes i = encodeChars (bytes.drop i) := by
  unfold Fs.encodeTail
  by_cases one : i < bytes.length
  · rw [if_pos one, drop_eq_getD_cons one]
    obtain ⟨first, second, _, _⟩ := picks (toNat_one (bytes.getD i 0))
    by_cases two : i + 1 < bytes.length
    · obtain ⟨_, middle, last, _⟩ := picks (toNat_two (bytes.getD i 0) (bytes.getD (i + 1) 0))
      have none : bytes.drop (i + 1 + 1) = [] := List.drop_eq_nil_of_le (by omega)
      have small := (bytes.getD (i + 1) 0).toNat_lt
      have front : ((bytes.getD i 0).toNat * 2 ^ 16 + (bytes.getD (i + 1) 0).toNat * 2 ^ 8) / 2 ^ 18 =
          (bytes.getD i 0).toNat * 2 ^ 16 / 2 ^ 18 := by
        omega
      rw [if_pos two, drop_eq_getD_cons two, none]
      simp only [encodeChars, first, middle, last, front]
    · have none : bytes.drop (i + 1) = [] := List.drop_eq_nil_of_le (by omega)
      rw [if_neg two, none]
      simp only [encodeChars, first, second]
  · rw [if_neg one, List.drop_eq_nil_of_le (Nat.le_of_not_lt one), encodeChars]

/-- The loop over the index encodes what is left from it on. -/
theorem encodeLoop_eq (bytes : List UInt8) (i : Nat) (out : List Char) :
    Fs.encodeLoop bytes i out = out ++ encodeChars (bytes.drop i) := by
  fun_induction Fs.encodeLoop bytes i out with
  | case1 i out more n ih =>
      obtain ⟨first, second, third, fourth⟩ := picks
        (toNat_three (bytes.getD i 0) (bytes.getD (i + 1) 0) (bytes.getD (i + 2) 0))
      rw [ih, drop_eq_getD_cons (show i < bytes.length by omega),
        drop_eq_getD_cons (show i + 1 < bytes.length by omega),
        drop_eq_getD_cons (show i + 1 + 1 < bytes.length by omega), encodeChars,
        List.append_assoc, first, second, third, fourth]
      rfl
  | case2 i out few => rw [encodeTail_eq few]

theorem chunks_eq (bytes : List UInt8) :
    (Browser.chunks bytes).flatMap Browser.encodeChunk = encodeChars bytes := by
  have zero : (0 : UInt8).toNat = 0 := rfl
  induction bytes using encodeChars.induct with
  | case1 first second third rest ih =>
      obtain ⟨one, two, three, four⟩ := picks (toNat_three first second third)
      rw [Browser.chunks, List.flatMap_cons, ih, encodeChars, ← one, ← two, ← three, ← four]
      rfl
  | case2 first second =>
      obtain ⟨one, two, three, _⟩ := picks (toNat_three first second 0)
      rw [zero, Nat.add_zero] at one two three
      rw [Browser.chunks, encodeChars, ← one, ← two, ← three]
      · rfl
      · simp
      · simp
  | case3 first =>
      obtain ⟨one, two, _, _⟩ := picks (toNat_three first 0 0)
      rw [zero, Nat.zero_mul, Nat.add_zero] at one two
      rw [Browser.chunks, encodeChars, ← one, ← two]
      · rfl
      · simp
      · simp
  | case4 => rfl

theorem fs_base64Encode (bytes : List UInt8) : Fs.base64Encode bytes = base64Encode bytes := by
  rw [Fs.base64Encode, encodeLoop_eq, List.nil_append, List.drop_zero, base64Encode]

theorem browser_base64Encode (bytes : List UInt8) :
    Browser.base64Encode bytes = base64Encode bytes := by
  rw [Browser.base64Encode, chunks_eq, base64Encode]

def spell (group : List Bool) : Char := alphabet.getD (value group) '='

/-- The symbols of the six-bit groups of the bytes, padded to a multiple of four. -/
def rfc4648 (bytes : List UInt8) : List Char :=
  let symbols := (groups 6 (ofBytes bytes)).map spell
  symbols ++ List.replicate ((4 - symbols.length % 4) % 4) '='

/-- The first group is what a shift by the others leaves. -/
theorem spell_groups {number : Nat} {list : List Bool} (count : Nat) (holds : Holds number list)
    (size : list.length = 6 + count) :
    (groups 6 list).map spell =
        symbol (number / 2 ^ count) :: (groups 6 (list.drop 6)).map spell ∧
      Holds number (list.drop 6) ∧ (list.drop 6).length = count := by
  have six : (list.take 6).length = 6 := List.length_take_of_le (by omega)
  have less : (list.drop 6).length = count := by
    rw [List.length_drop, size, Nat.add_sub_cancel_left]
  have split := holds
  rw [← List.take_append_drop 6 list] at split
  have first := split.ahead
  rw [six, less] at first
  refine ⟨?_, split.behind, less⟩
  rw [groups_of_le (by decide) (by omega), List.map_cons, symbol, spell, ← first]
  rfl

theorem spell_two {number : Nat} {list : List Bool} (holds : Holds number list)
    (size : list.length = 12) :
    (groups 6 list).map spell = [symbol (number / 2 ^ 6), symbol number] := by
  obtain ⟨one, holds, size⟩ := spell_groups 6 holds size
  obtain ⟨two, _, size⟩ := spell_groups 0 holds size
  rw [one, two, List.length_eq_zero_iff.mp size, groups_nil (by decide), Nat.pow_zero, Nat.div_one]
  rfl

theorem spell_three {number : Nat} {list : List Bool} (holds : Holds number list)
    (size : list.length = 18) : (groups 6 list).map spell =
      [symbol (number / 2 ^ 12), symbol (number / 2 ^ 6), symbol number] := by
  obtain ⟨one, holds, size⟩ := spell_groups 12 holds size
  rw [one, spell_two holds size]

theorem spell_four {number : Nat} {list : List Bool} (holds : Holds number list)
    (size : list.length = 24) : (groups 6 list).map spell =
      [symbol (number / 2 ^ 18), symbol (number / 2 ^ 12), symbol (number / 2 ^ 6),
        symbol number] := by
  obtain ⟨one, holds, size⟩ := spell_groups 18 holds size
  rw [one, spell_three holds size]

theorem rfc4648_group (first second third : UInt8) (rest : List UInt8) :
    rfc4648 (first :: second :: third :: rest) =
      (groups 6 (ofBytes [first, second, third])).map spell ++ rfc4648 rest := by
  have size : (ofBytes [first, second, third]).length = 4 * 6 := length_ofBytes _
  have four : ((groups 6 (ofBytes [first, second, third])).map spell).length = 4 := by
    rw [List.length_map, length_groups, size]
  have split : ofBytes (first :: second :: third :: rest) =
      ofBytes [first, second, third] ++ ofBytes rest := by
    simp only [ofBytes_cons, List.append_assoc]
    rfl
  simp only [rfc4648, split, groups_append (ofBytes rest) (show 0 < 6 by decide) size,
    List.map_append, List.length_append, four, Nat.add_mod_left, List.append_assoc]

theorem encodeChars_eq_rfc4648 (bytes : List UInt8) : encodeChars bytes = rfc4648 bytes := by
  have none : value (ofBytes []) = 0 := rfl
  induction bytes using encodeChars.induct with
  | case1 first second third rest ih =>
      have number : value (ofBytes [first, second, third]) =
          first.toNat * 2 ^ 16 + second.toNat * 2 ^ 8 + third.toNat := by
        simp only [value_ofBytes_cons, none, List.length_cons, List.length_nil]
        omega
      have holds := Holds.self (ofBytes [first, second, third])
      rw [rfc4648_group, spell_four holds (length_ofBytes _), number, encodeChars, ih]
      rfl
  | case2 first second =>
      -- Two zeros complete the third group.
      have zeros : groups 6 (ofBytes [first, second] ++ List.replicate 2 false) =
          groups 6 (ofBytes [first, second]) := groups_zeros (by simp [length_ofBytes])
      have number : value (ofBytes [first, second] ++ List.replicate 2 false) =
          (first.toNat * 2 ^ 8 + second.toNat) * 2 ^ 2 := by
        rw [value_append, value_zeros, List.length_replicate]
        simp only [value_ofBytes_cons, none, List.length_cons, List.length_nil]
        omega
      have spelled := spell_three (Holds.self (ofBytes [first, second] ++ List.replicate 2 false))
        (by rw [List.length_append, length_ofBytes]; rfl)
      rw [zeros, number] at spelled
      have one : (first.toNat * 2 ^ 16 + second.toNat * 2 ^ 8) / 2 ^ 18 =
          (first.toNat * 2 ^ 8 + second.toNat) * 2 ^ 2 / 2 ^ 12 := by omega
      have two : (first.toNat * 2 ^ 16 + second.toNat * 2 ^ 8) / 2 ^ 12 =
          (first.toNat * 2 ^ 8 + second.toNat) * 2 ^ 2 / 2 ^ 6 := by omega
      have three : (first.toNat * 2 ^ 16 + second.toNat * 2 ^ 8) / 2 ^ 6 =
          (first.toNat * 2 ^ 8 + second.toNat) * 2 ^ 2 := by omega
      rw [rfc4648, spelled, encodeChars, one, two, three]
      rfl
  | case3 first =>
      -- Four zeros complete the second group.
      have zeros : groups 6 (ofBytes [first] ++ List.replicate 4 false) =
          groups 6 (ofBytes [first]) := groups_zeros (by simp [length_ofBytes])
      have number : value (ofBytes [first] ++ List.replicate 4 false) = first.toNat * 2 ^ 4 := by
        rw [value_append, value_zeros, List.length_replicate]
        simp only [value_ofBytes_cons, none, List.length_nil]
        omega
      have spelled := spell_two (Holds.self (ofBytes [first] ++ List.replicate 4 false))
        (by rw [List.length_append, length_ofBytes]; rfl)
      rw [zeros, number] at spelled
      have one : first.toNat * 2 ^ 16 / 2 ^ 18 = first.toNat * 2 ^ 4 / 2 ^ 6 := by omega
      have two : first.toNat * 2 ^ 16 / 2 ^ 12 = first.toNat * 2 ^ 4 := by omega
      rw [rfc4648, spelled, encodeChars, one, two]
      rfl
  | case4 => rfl

theorem or_shift_byte (high low : UInt8) {shift : Nat} (few : shift < 8)
    (small : low.toNat < 2 ^ shift) :
    high <<< UInt8.ofNat shift ||| low = UInt8.ofNat (high.toNat * 2 ^ shift + low.toNat) := by
  have amount : (UInt8.ofNat shift).toNat % 8 = shift := by
    rw [UInt8.toNat_ofNat']
    omega
  apply UInt8.toNat_inj.mp
  rw [UInt8.toNat_or, UInt8.toNat_shiftLeft, amount, UInt8.toNat_ofNat',
    or_shift high.toNat small (Nat.le_of_lt few)]

theorem first_byte {first second : UInt8} (small : second.toNat < 64) :
    first <<< 2 ||| second >>> 4 = UInt8.ofNat (first.toNat * 4 + second.toNat / 16) := by
  have low : (second >>> 4).toNat = second.toNat / 16 := by
    rw [UInt8.toNat_shiftRight]
    exact Nat.shiftRight_eq_div_pow _ 4
  have joined := or_shift_byte first (second >>> 4) (show 2 < 8 by decide) (by rw [low]; omega)
  rw [low] at joined
  exact joined

theorem second_byte {second third : UInt8} (small : third.toNat < 64) :
    second <<< 4 ||| third >>> 2 = UInt8.ofNat (second.toNat * 16 + third.toNat / 4) := by
  have low : (third >>> 2).toNat = third.toNat / 4 := by
    rw [UInt8.toNat_shiftRight]
    exact Nat.shiftRight_eq_div_pow _ 2
  have joined := or_shift_byte second (third >>> 2) (show 4 < 8 by decide) (by rw [low]; omega)
  rw [low] at joined
  exact joined

theorem third_byte {third fourth : UInt8} (small : fourth.toNat < 64) :
    third <<< 6 ||| fourth = UInt8.ofNat (third.toNat * 64 + fourth.toNat) :=
  or_shift_byte third fourth (show 6 < 8 by decide) small

/-- The table finds the symbol that the characters find. -/
theorem table_ascii {char : Char} (ascii : char.toNat < 128) :
    Fs.table (UInt8.ofNat char.toNat) = ((symbolBits char).map UInt8.ofNat).getD 255 := by
  have byte : (UInt8.ofNat char.toNat).toNat = char.toNat := Text.toNat_byte (by omega)
  have same : (fun other : Char => other.toNat == char.toNat) = fun other => other == char := by
    funext other
    exact Bool.eq_iff_iff.mpr (by simp [Char.toNat_inj])
  rw [Fs.table, symbolBits, byte, same]
  split <;> rfl

theorem symbolBits_lt {char : Char} {index : Nat} (known : symbolBits char = some index) :
    index < 64 := by
  rw [symbolBits] at known
  split at known
  · cases known
    assumption
  · cases known

theorem table_high {byte : UInt8} (high : 128 ≤ byte.toNat) : Fs.table byte = 255 := by
  have none : ∀ char ∈ alphabet, (char.toNat == byte.toNat) = false := by
    have low : ∀ char ∈ alphabet, char.toNat < 128 := Text.forall_of_all (by decide)
    intro char member
    have less := low char member
    exact beq_false_of_ne (by omega)
  have length : alphabet.length = 64 := by decide
  rw [Fs.table, List.findIdx_eq_length_of_false none, length]
  rfl

theorem symbolBits_high {char : Char} (high : 128 ≤ char.toNat) : symbolBits char = none := by
  have none : ∀ other ∈ alphabet, (other == char) = false := by
    have low : ∀ other ∈ alphabet, other.toNat < 128 := Text.forall_of_all (by decide)
    intro other member
    have less := low other member
    apply beq_false_of_ne
    rintro rfl
    omega
  have length : alphabet.length = 64 := by decide
  rw [symbolBits, List.findIdx_eq_length_of_false none, length]
  rfl

/-- The white space of the filter on characters. -/
def blank (char : Char) : Bool := " \t\r\n".toList.contains char

theorem dropped_ascii {char : Char} (ascii : char.toNat < 128) :
    Fs.dropped (UInt8.ofNat char.toNat) = blank char := by
  have all : ∀ code < 128, Fs.dropped (UInt8.ofNat code) = blank (Char.ofNat code) := by decide
  have read := all char.toNat ascii
  rwa [Char.ofNat_toNat] at read

theorem dropped_high {byte : UInt8} (high : 128 ≤ byte.toNat) : Fs.dropped byte = false := by
  have low : (([0x20, 0x09, 0x0D, 0x0A] : List UInt8).all fun other =>
      decide (other.toNat < 128)) = true := by decide
  rw [Fs.dropped, List.contains_eq_mem, decide_eq_false_iff_not]
  intro member
  exact absurd (of_decide_eq_true (List.all_eq_true.mp low byte member)) (Nat.not_lt.mpr high)

theorem decodeEnd_eq {chunk : List UInt8} (small : ∀ v ∈ chunk, v.toNat < 64)
    (few : chunk.length < 4) : Fs.decodeEnd chunk = group (chunk.map UInt8.toNat) := by
  match chunk with
  | [] => rfl
  | [first] => rfl
  | [first, second] =>
      simp only [List.forall_mem_cons] at small
      simp only [Fs.decodeEnd, List.map_cons, List.map_nil, group, first_byte small.2.1]
  | [first, second, third] =>
      simp only [List.forall_mem_cons] at small
      simp only [Fs.decodeEnd, List.map_cons, List.map_nil, group, first_byte small.2.1,
        second_byte small.2.2.1]
  | first :: second :: third :: fourth :: rest =>
      simp only [List.length_cons] at few
      omega

theorem decodeChars_none {filled : List Nat} {char : Char} {rest : List Char} (other : char ≠ '=')
    (unknown : symbolBits char = none) : decodeChars filled (char :: rest) = none := by
  rw [decodeChars, unknown]
  exact other

theorem decodeChars_some {filled : List Nat} {char : Char} {rest : List Char} {bits : Nat}
    (other : char ≠ '=') (known : symbolBits char = some bits) :
    decodeChars filled (char :: rest) =
      if filled.length = 3 then
        (group (filled ++ [bits])).bind fun bytes => (decodeChars [] rest).map (bytes ++ ·)
      else decodeChars (filled ++ [bits]) rest := by
  rw [decodeChars, known]
  exact other

theorem decodeLoop_none {byte : UInt8} {bytes chunk out : List UInt8} (solid : byte ≠ 0x3D)
    (known : Fs.table byte = 255) : Fs.decodeLoop (byte :: bytes) chunk out = none := by
  rw [Fs.decodeLoop, if_neg solid]
  simp only [known, if_pos]

/-- A symbol either fills the chunk or waits in it. -/
theorem decodeLoop_symbol {byte v : UInt8} {bytes chunk : List UInt8} {rest : List Char}
    (out : List UInt8) (solid : byte ≠ 0x3D) (known : Fs.table byte = v) (value : v.toNat < 64)
    (small : ∀ v ∈ chunk, v.toNat < 64) (few : chunk.length < 4)
    (later : ∀ chunk out, (∀ v ∈ chunk, v.toNat < 64) → chunk.length < 4 →
      Fs.decodeLoop bytes chunk out =
        (decodeChars (chunk.map UInt8.toNat) rest).map (out ++ ·)) :
    Fs.decodeLoop (byte :: bytes) chunk out =
      (if (chunk.map UInt8.toNat).length = 3 then
        (group (chunk.map UInt8.toNat ++ [v.toNat])).bind fun bytes =>
          (decodeChars [] rest).map (bytes ++ ·)
      else decodeChars (chunk.map UInt8.toNat ++ [v.toNat]) rest).map (out ++ ·) := by
  have other : v ≠ 255 := by
    rintro rfl
    exact absurd value (by decide)
  have waits : ∀ chunk : List UInt8, chunk.length < 3 → (∀ v ∈ chunk, v.toNat < 64) →
      Fs.decodeLoop bytes (chunk ++ [v]) out =
        (decodeChars (chunk.map UInt8.toNat ++ [v.toNat]) rest).map (out ++ ·) := by
    intro chunk less small
    rw [later (chunk ++ [v]) out, List.map_append, List.map_singleton]
    · intro each member
      rcases List.mem_append.mp member with old | new
      · exact small each old
      · rwa [List.mem_singleton.mp new]
    · rw [List.length_append, List.length_singleton]
      omega
  rw [Fs.decodeLoop, if_neg solid]
  simp only [known, if_neg other]
  match chunk with
  | [] => exact waits [] (by decide) small
  | [first] => exact waits [first] (by simp) small
  | [first, second] => exact waits [first, second] (by simp) small
  | [first, second, third] =>
      simp only [List.forall_mem_cons] at small
      have full : ([first, second, third].map UInt8.toNat).length = 3 := rfl
      dsimp only
      rw [later [] _ (by simp) (by decide), first_byte small.2.1, second_byte small.2.2.1,
        third_byte value, if_pos full]
      simp only [List.map_cons, List.map_nil, List.cons_append, List.nil_append, group,
        Option.bind_some, Option.map_map]
      congr 1
      funext more
      simp
  | first :: second :: third :: fourth :: more =>
      simp only [List.length_cons] at few
      omega

/-- The loop over the bytes decodes what the loop over the characters decodes. -/
theorem decodeLoop_eq (chars : List Char) {chunk out : List UInt8}
    (small : ∀ v ∈ chunk, v.toNat < 64) (few : chunk.length < 4) :
    Fs.decodeLoop ((chars.flatMap String.utf8EncodeChar).filter fun byte => !Fs.dropped byte)
        chunk out =
      (decodeChars (chunk.map UInt8.toNat) (chars.filter fun char => !blank char)).map
        (out ++ ·) := by
  induction chars generalizing chunk out with
  | nil =>
      rw [List.flatMap_nil, List.filter_nil, List.filter_nil, Fs.decodeLoop, decodeChars,
        decodeEnd_eq small few]
  | cons char rest ih =>
      rw [List.flatMap_cons, List.filter_append]
      rcases Nat.lt_or_ge char.toNat 128 with ascii | high
      · rw [Text.utf8EncodeChar_ascii ascii, List.filter_singleton, dropped_ascii ascii]
        cases gone : blank char with
        | true =>
            rw [List.filter_cons_of_neg (by rw [gone]; decide)]
            exact ih small few
        | false =>
            rw [List.filter_cons_of_pos (by rw [gone]; decide)]
            by_cases padding : char = '='
            · rw [padding, decodeChars, ← decodeEnd_eq small few]
              rfl
            · have solid : UInt8.ofNat char.toNat ≠ 0x3D := by
                intro same
                apply padding
                have code := congrArg UInt8.toNat same
                rw [Text.toNat_byte (by omega)] at code
                exact Char.toNat_inj.mp code
              have known := table_ascii ascii
              cases symbol : symbolBits char with
              | none =>
                  rw [symbol] at known
                  rw [decodeChars_none padding symbol]
                  exact decodeLoop_none solid known
              | some index =>
                  have less := symbolBits_lt symbol
                  have value : (UInt8.ofNat index).toNat = index := Text.toNat_byte (by omega)
                  rw [symbol, Option.map_some, Option.getD_some] at known
                  have step := decodeLoop_symbol out solid known (by rwa [value]) small few
                    fun chunk out small few => ih small few
                  rw [value] at step
                  rw [decodeChars_some padding symbol]
                  exact step
      · obtain ⟨byte, more, bytes⟩ := List.exists_cons_of_ne_nil
          (String.utf8EncodeChar_ne_nil (c := char))
        have first : 128 ≤ byte.toNat :=
          Json.high_of_mem_utf8EncodeChar high (by rw [bytes]; exact List.mem_cons_self)
        have solid : byte ≠ 0x3D := by
          rintro rfl
          exact absurd first (by decide)
        have kept : blank char = false := by
          have low : ∀ other ∈ " \t\r\n".toList, other.toNat < 128 := Text.forall_of_all (by decide)
          rw [blank, List.contains_eq_mem, decide_eq_false_iff_not]
          intro member
          exact absurd (low char member) (Nat.not_lt.mpr high)
        have other : char ≠ '=' := by
          rintro rfl
          exact absurd high (by decide)
        rw [bytes, List.filter_cons_of_pos (by rw [dropped_high first]; rfl), List.cons_append,
          decodeLoop_none solid (table_high first), List.filter_cons_of_pos (by rw [kept]; rfl),
          decodeChars_none other (symbolBits_high high)]
        rfl

theorem fs_base64Decode (input : String) : Fs.base64Decode input = base64Decode input := by
  rw [Fs.base64Decode, Text.encode, decodeLoop_eq input.toList (by simp) (by decide), base64Decode]
  simp only [List.nil_append]
  exact Option.map_id'

/-- The five characters of `is_ascii_whitespace`. -/
def isAsciiWhitespace (char : Char) : Bool := blank char || char == '\x0C'

theorem blank_interrupts (bytes : List UInt8) {text : String}
    (kept : text.toList.filter (fun char => !blank char) = (base64Encode bytes).toList) :
    base64Decode text = some bytes := by
  have solid : (text.toList.filter fun char => !" \t\r\n".toList.contains char) =
      encodeChars bytes := kept.trans String.toList_ofList
  rw [base64Decode, solid, decodeChars_encodeChars]

/-- Both encoders write the padded encoding, and the decoder reads it, also where spaces, tabs,
carriage returns and line feeds interrupt it. -/
theorem base64_exact (bytes : List UInt8) :
    Fs.base64Decode (Fs.base64Encode bytes) = some bytes ∧
    Browser.base64Encode bytes = Fs.base64Encode bytes ∧
    (Fs.base64Encode bytes).toList = rfc4648 bytes ∧
    ∀ text : String,
      text.toList.filter (fun char => !blank char) = (Fs.base64Encode bytes).toList →
      Fs.base64Decode text = some bytes := by
  rw [fs_base64Encode, browser_base64Encode, fs_base64Decode, base64Decode_base64Encode]
  refine ⟨rfl, rfl, ?_, ?_⟩
  · rw [base64Encode, String.toList_ofList, encodeChars_eq_rfc4648]
  · intro text kept
    rw [fs_base64Decode]
    exact blank_interrupts bytes kept

/-- A form feed between two symbols is refused. -/
theorem form_feed_refused : ∃ bytes : List UInt8, ∃ text : String,
    text.toList.filter (fun char => !isAsciiWhitespace char) = (Fs.base64Encode bytes).toList ∧
      Fs.base64Decode text ≠ some bytes := by
  refine ⟨[0], "A\x0CA==", ?_, ?_⟩
  · rw [fs_base64Encode]
    decide
  · decide

end Daemon.Base64
