import SynthHiresBridge.Data.Lines
import SynthHiresBridge.Data.Utf8

namespace Text

/-- A byte of ASCII ends the part before it. -/
theorem follow_append {byte : UInt8} (ascii : byte.toNat < 128) (count : Nat) {low : Nat}
    (high bits : Nat) (above : 128 ≤ low) (front rest : List UInt8) :
    follow count low high bits (front ++ byte :: rest) =
      ((follow count low high bits front).1,
        (follow count low high bits front).2 ++ byte :: rest) := by
  induction count generalizing low high bits front with
  | zero => rfl
  | succ count ih =>
      cases front with
      | nil =>
          have outside : ¬(low ≤ byte.toNat ∧ byte.toNat ≤ high) := by omega
          show follow (count + 1) low high bits (byte :: rest) = (none, byte :: rest)
          rw [follow, if_neg outside]
      | cons first front =>
          rw [List.cons_append, follow, follow]
          split_ifs with fits
          · exact ih 0xBF _ (by decide) front
          · rfl

theorem follow_length (count low high bits : Nat) (bytes : List UInt8) :
    (follow count low high bits bytes).2.length ≤ bytes.length := by
  induction count generalizing low high bits bytes with
  | zero => exact Nat.le_refl _
  | succ count ih =>
      cases bytes with
      | nil => exact Nat.le_refl _
      | cons byte bytes =>
          rw [follow]
          split_ifs with fits
          · exact Nat.le_succ_of_le (ih 0x80 0xBF _ bytes)
          · exact Nat.le_refl _

/-- The range of a byte that follows starts after ASCII. -/
theorem lead_low {byte count low high bits : Nat}
    (leads : lead byte = some (count, low, high, bits)) : 128 ≤ low := by
  unfold lead at leads
  split_ifs at leads <;> cases leads <;> decide

/-- Fuel for every byte is enough. -/
theorem decodeFrom_fuel {first second : Nat} {bytes : List UInt8} (enough : bytes.length ≤ first)
    (also : bytes.length ≤ second) : decodeFrom first bytes = decodeFrom second bytes := by
  induction first generalizing second bytes with
  | zero =>
      obtain rfl := List.length_eq_zero_iff.mp (Nat.le_zero.mp enough)
      cases second <;> rfl
  | succ first ih =>
      cases bytes with
      | nil => cases second <;> rfl
      | cons byte bytes =>
          cases second with
          | zero => cases also
          | succ second =>
              have less := Nat.le_of_succ_le_succ enough
              have fewer := Nat.le_of_succ_le_succ also
              rw [decodeFrom, decodeFrom]
              cases lead byte.toNat with
              | none => exact congrArg (none :: ·) (ih less fewer)
              | some leads =>
                  obtain ⟨count, low, high, bits⟩ := leads
                  have short := follow_length count low high bits bytes
                  exact congrArg (_ :: ·) (ih (Nat.le_trans short less) (Nat.le_trans short fewer))

theorem decodeFrom_append {byte : UInt8} (ascii : byte.toNat < 128) (rest : List UInt8)
    {whole : Nat} {front : List UInt8} (enough : (front ++ byte :: rest).length ≤ whole) :
    decodeFrom whole (front ++ byte :: rest) =
      decodeFrom whole front ++ decodeFrom whole (byte :: rest) := by
  induction whole generalizing front with
  | zero => simp at enough
  | succ whole ih =>
      cases front with
      | nil => rfl
      | cons first front =>
          have less : (front ++ byte :: rest).length ≤ whole := Nat.le_of_succ_le_succ enough
          have tail : decodeFrom (whole + 1) (byte :: rest) = decodeFrom whole (byte :: rest) := by
            apply decodeFrom_fuel
            · simp only [List.length_append] at less
              omega
            · simp only [List.length_append] at less
              omega
          rw [List.cons_append, tail, decodeFrom, decodeFrom]
          cases leads : lead first.toNat with
          | none => exact congrArg (none :: ·) (ih less)
          | some found =>
              obtain ⟨count, low, high, bits⟩ := found
              simp only [follow_append ascii count high bits (lead_low leads), List.cons_append]
              congr 1
              apply ih
              have short := follow_length count low high bits front
              simp only [List.length_append] at less ⊢
              omega

/-- Decoding is cut at a byte of ASCII. -/
theorem decode_append {byte : UInt8} (ascii : byte.toNat < 128) (front rest : List UInt8) :
    decode (front ++ byte :: rest) = decode front ++ decode (byte :: rest) := by
  rw [decode, decodeFrom_append ascii rest (Nat.le_refl _)]
  congr 1
  · apply decodeFrom_fuel
    · rw [List.length_append]
      exact Nat.le_add_right _ _
    · exact Nat.le_refl _
  · apply decodeFrom_fuel
    · rw [List.length_append]
      exact Nat.le_add_left _ _
    · exact Nat.le_refl _

theorem lossy_newline (front rest : List UInt8) :
    (lossy (front ++ 10 :: rest)).toList = (lossy front).toList ++ '\n' :: (lossy rest).toList := by
  have first : decode (10 :: rest) = some '\n' :: decode rest := rfl
  rw [lossy, decode_append (by decide), first, String.toList_ofList, List.map_append,
    List.map_cons, lossy, lossy, String.toList_ofList, String.toList_ofList]
  rfl

/-- More bytes make a larger code. -/
theorem follow_code {count low high bits : Nat} {bytes : List UInt8} {char : Char}
    (done : (follow count low high bits bytes).1 = some char) :
    ∃ code, bits ≤ code ∧ char = Char.ofNat code := by
  induction count generalizing low high bits bytes with
  | zero => exact ⟨bits, Nat.le_refl _, (Option.some.inj done).symm⟩
  | succ count ih =>
      cases bytes with
      | nil => cases done
      | cons byte bytes =>
          rw [follow] at done
          split_ifs at done with fits
          obtain ⟨code, above, same⟩ := ih done
          exact ⟨code, by omega, same⟩

theorem ofNat_ne_newline {code : Nat} (other : code ≠ 10) : Char.ofNat code ≠ '\n' := by
  intro same
  have value := congrArg Char.toNat same
  by_cases valid : code.isValidChar
  · rw [toNat_ofNat valid] at value
    exact other value
  · rw [Char.ofNat, dif_neg valid] at value
    exact absurd value (by decide)

/-- The second byte of a character makes its code larger than that of a newline. -/
theorem lead_step {byte count low high bits next : Nat}
    (leads : lead byte = some (count + 1, low, high, bits)) (above : low ≤ next)
    (below : next ≤ high) : 10 < bits * 64 + next % 64 := by
  unfold lead at leads
  split_ifs at leads <;> cases leads <;> omega

theorem lead_ascii {byte low high bits : Nat} (leads : lead byte = some (0, low, high, bits)) :
    bits = byte := by
  unfold lead at leads
  split_ifs at leads <;> cases leads
  rfl

/-- The first character is a newline only where the first byte is. -/
theorem follow_ne_newline {byte : UInt8} {count low high bits : Nat} {bytes : List UInt8}
    (leads : lead byte.toNat = some (count, low, high, bits)) (other : byte ≠ 10) :
    (follow count low high bits bytes).1 ≠ some '\n' := by
  intro done
  cases count with
  | zero =>
      refine ofNat_ne_newline ?_ (Option.some.inj done)
      rw [lead_ascii leads]
      exact fun same => other (UInt8.toNat_inj.mp same)
  | succ count =>
      cases bytes with
      | nil => cases done
      | cons next bytes =>
          rw [follow] at done
          split_ifs at done with fits
          obtain ⟨code, above, same⟩ := follow_code done
          have large := lead_step leads fits.1 fits.2
          exact ofNat_ne_newline (by omega) same.symm

theorem follow_subset (count low high bits : Nat) (bytes : List UInt8) :
    (follow count low high bits bytes).2 ⊆ bytes := by
  induction count generalizing low high bits bytes with
  | zero => exact List.Subset.refl _
  | succ count ih =>
      cases bytes with
      | nil => exact List.Subset.refl _
      | cons byte bytes =>
          rw [follow]
          split_ifs with fits
          · exact List.subset_cons_of_subset _ (ih 0x80 0xBF _ bytes)
          · exact List.Subset.refl _

/-- Only the byte of a newline is read as one. -/
theorem newline_not_mem_decodeFrom {fuel : Nat} {bytes : List UInt8} (clean : 10 ∉ bytes) :
    some '\n' ∉ decodeFrom fuel bytes := by
  induction fuel generalizing bytes with
  | zero => exact List.not_mem_nil
  | succ fuel ih =>
      cases bytes with
      | nil => exact List.not_mem_nil
      | cons byte bytes =>
          obtain ⟨other, later⟩ := not_or.mp (List.mem_cons.not.mp clean)
          rw [decodeFrom]
          cases leads : lead byte.toNat with
          | none => exact List.not_mem_cons_of_ne_of_not_mem (Option.some_ne_none _) (ih later)
          | some found =>
              obtain ⟨count, low, high, bits⟩ := found
              refine List.not_mem_cons_of_ne_of_not_mem ?_ (ih fun member => later ?_)
              · exact (follow_ne_newline leads (Ne.symm other)).symm
              · exact follow_subset _ _ _ _ _ member

theorem newline_not_mem_lossy {bytes : List UInt8} (clean : 10 ∉ bytes) :
    '\n' ∉ (lossy bytes).toList := by
  rw [lossy, String.toList_ofList]
  intro member
  obtain ⟨char, held, same⟩ := List.mem_map.mp member
  cases char with
  | none => exact absurd same (by decide)
  | some char =>
      obtain rfl : char = '\n' := same
      exact newline_not_mem_decodeFrom clean held

/-- A text without a newline has no byte of one. -/
theorem newline_not_mem_encode {text : String} (clean : '\n' ∉ text.toList) :
    10 ∉ encode text := by
  intro member
  obtain ⟨front, rest, same⟩ := List.append_of_mem member
  apply clean
  rw [← lossy_encode text, same, lossy_newline]
  exact List.mem_append_right _ (List.mem_cons_self ..)

theorem lossy_ne_empty {bytes : List UInt8} (filled : bytes ≠ []) : (lossy bytes).toList ≠ [] := by
  cases bytes with
  | nil => exact absurd rfl filled
  | cons byte bytes =>
      rw [lossy, String.toList_ofList, decode, List.length_cons, decodeFrom]
      cases lead byte.toNat with
      | none => exact List.cons_ne_nil _ _
      | some found => exact List.cons_ne_nil _ _

/-- A text is read lossily piece by piece. -/
theorem pieces_lossy (bytes : List UInt8) : Lines.pieces '\n' (lossy bytes).toList =
    (Lines.pieces 10 bytes).map fun piece => (lossy piece).toList := by
  induction bytes using Lines.lineInduction (10 : UInt8) with
  | tail rest clean =>
      rw [Lines.pieces_tail (newline_not_mem_lossy clean), Lines.pieces_tail clean]
      by_cases empty : rest = []
      · subst empty
        rfl
      · rw [if_neg empty, if_neg (lossy_ne_empty empty), List.map_singleton]
  | line front rest clean ih =>
      rw [lossy_newline, Lines.pieces_line (newline_not_mem_lossy clean), ih,
        Lines.pieces_line clean, List.map_cons, lossy_newline front []]
      rfl

/-- The text of a piece of a file as its line is read. -/
def pieceText (piece : List UInt8) : String := String.ofList (unterminated (lossy piece).toList)

theorem lines_lossy (bytes : List UInt8) :
    lines (lossy bytes) = (Lines.pieces 10 bytes).map pieceText := by
  rw [lines_eq, pieces_lossy, List.map_map]
  rfl

theorem pieceText_clean {raw : List UInt8} (clean : 10 ∉ raw) :
    '\n' ∉ (pieceText raw).toList ∧ '\n' ∉ (pieceText (raw ++ [10])).toList := by
  have plain := newline_not_mem_lossy clean
  constructor
  · rw [pieceText, unterminated_tail plain, String.toList_ofList]
    exact plain
  · have nothing : (lossy []).toList = [] := rfl
    rw [pieceText, lossy_newline raw [], nothing, unterminated_line, String.toList_ofList,
      stripLast]
    split_ifs with last
    · exact fun member => plain (List.dropLast_subset _ member)
    · exact plain

/-- A byte of ASCII is read as its character. -/
theorem lossy_return (front : List UInt8) :
    (lossy (front ++ [13])).toList = (lossy front).toList ++ ['\r'] := by
  have last : decode [13] = [some '\r'] := rfl
  rw [lossy, decode_append (by decide), last, String.toList_ofList, List.map_append, lossy,
    String.toList_ofList]
  rfl

/-- Valid UTF-8 is read without a loss. -/
theorem encode_lossy_eq_iff (bytes : List UInt8) :
    encode (lossy bytes) = bytes ↔ ∃ text, encode text = bytes := by
  constructor
  · exact fun same => ⟨lossy bytes, same⟩
  · rintro ⟨text, rfl⟩
    rw [lossy_encode]

/-- A piece of valid UTF-8 that does not end with a carriage return and a newline. -/
def Plain (piece : List UInt8) : Prop :=
  (∃ text, encode text = piece) ∧ ¬[13, 10] <:+ piece

/-- A line without a terminator is plain exactly where its text gives its bytes. -/
theorem plain_tail_iff {raw : List UInt8} (clean : 10 ∉ raw) :
    encode (pieceText raw) = raw ↔ Plain raw := by
  have text : pieceText raw = lossy raw := by
    rw [pieceText, unterminated_tail (newline_not_mem_lossy clean), String.ofList_toList]
  have open_ : ¬[13, 10] <:+ raw := fun ends => clean (ends.subset (by decide))
  rw [text, encode_lossy_eq_iff, Plain, and_iff_left open_]

theorem encode_newline (text : String) : encode (text ++ "\n") = encode text ++ [10] := by
  have newline : encode "\n" = [10] := by decide
  rw [encode_string_append, newline]

/-- A line with its newline is plain exactly where its text gives its bytes. -/
theorem plain_line_iff {raw : List UInt8} (clean : 10 ∉ raw) :
    encode (pieceText (raw ++ [10])) ++ [10] = raw ++ [10] ↔ Plain (raw ++ [10]) := by
  have nothing : (lossy []).toList = [] := rfl
  have text : pieceText (raw ++ [10]) =
      String.ofList ((stripLast '\r' (lossy raw).toList).getD (lossy raw).toList) := by
    rw [pieceText, lossy_newline raw [], nothing, unterminated_line]
  have valid : (∃ text, encode text = raw ++ [10]) ↔ encode (lossy raw) = raw := by
    constructor
    · rintro ⟨whole, same⟩
      have read : whole = lossy raw ++ "\n" := by
        apply String.toList_inj.mp
        rw [← lossy_encode whole, same, lossy_newline raw [], nothing, String.toList_append]
        rfl
      rw [read, encode_newline] at same
      exact List.append_cancel_right same
    · intro same
      exact ⟨lossy raw ++ "\n", by rw [encode_newline, same]⟩
  have returns : [13, 10] <:+ raw ++ [10] ↔ ∃ front, raw = front ++ [13] := by
    constructor
    · rintro ⟨front, same⟩
      have ends : raw ++ [10] = (front ++ [13]) ++ [10] := by
        rw [← same, List.append_assoc]
        rfl
      exact ⟨front, List.append_cancel_right ends⟩
    · rintro ⟨front, rfl⟩
      exact ⟨front, by rw [List.append_assoc]; rfl⟩
  have kept := stripLast_getD_eq_iff '\r' (lossy raw).toList
  rw [Plain, valid, returns, List.append_left_inj, text]
  constructor
  · intro same
    have read := congrArg lossy same
    rw [lossy_encode] at read
    have own := kept.mp (by rw [← String.toList_ofList
      (l := (stripLast '\r' (lossy raw).toList).getD (lossy raw).toList), read])
    refine ⟨by rw [← read, same], ?_⟩
    rintro ⟨front, rfl⟩
    apply own
    rw [lossy_return, List.getLast?_concat]
  · rintro ⟨same, closed⟩
    have own : (lossy raw).toList.getLast? ≠ some '\r' := by
      intro last
      obtain ⟨front, ends⟩ := List.getLast?_eq_some_iff.mp last
      apply closed
      have whole : lossy raw = String.ofList front ++ "\r" := by
        apply String.toList_inj.mp
        rw [ends, String.toList_append, String.toList_ofList]
        rfl
      have byte : encode "\r" = [13] := by decide
      refine ⟨encode (String.ofList front), ?_⟩
      rw [← byte, ← encode_string_append, ← whole, same]
    rw [kept.mpr own, String.ofList_toList, same]

end Text
