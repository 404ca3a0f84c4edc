import SynthHiresBridge.Data.LossyLines

namespace Text

/-- A place is inside a character when bytes before it and the byte after it are read as one. -/
def Cuts (front rest : List UInt8) : Prop :=
  ∃ before part next later, front = before ++ part ∧ part ≠ [] ∧ rest = next :: later ∧
    (decode (part ++ [next])).length = 1

theorem Cuts.before {front rest : List UInt8} (cuts : Cuts front rest) (more : List UInt8) :
    Cuts (more ++ front) rest := by
  obtain ⟨before, part, next, later, rfl, some, made, one⟩ := cuts
  exact ⟨more ++ before, part, next, later, (List.append_assoc _ _ _).symm, some, made, one⟩

/-- What comes later does not matter after the first byte. -/
theorem Cuts.after {front rest : List UInt8} (cuts : Cuts front rest) (more : List UInt8) :
    Cuts front (rest ++ more) := by
  obtain ⟨before, part, next, later, made, some, rfl, one⟩ := cuts
  exact ⟨before, part, next, later ++ more, made, some, rfl, one⟩

theorem follow_nil (count low high bits : Nat) : (follow count low high bits []).2 = [] := by
  cases count <;> rfl

theorem follow_suffix (count low high bits : Nat) (bytes : List UInt8) :
    (follow count low high bits bytes).2 <:+ bytes := by
  induction count generalizing low high bits bytes with
  | zero => exact List.suffix_refl _
  | succ count ih =>
      cases bytes with
      | nil => exact List.suffix_refl _
      | cons byte bytes =>
          rw [follow]
          split_ifs with fits
          · exact (ih 0x80 0xBF _ bytes).trans (List.suffix_cons _ _)
          · exact List.suffix_refl _

theorem follow_fits {count low high bits : Nat} {byte : UInt8}
    (fits : low ≤ byte.toNat ∧ byte.toNat ≤ high) (rest : List UInt8) :
    follow (count + 1) low high bits (byte :: rest) =
      follow count 0x80 0xBF (bits * 64 + byte.toNat % 64) rest := if_pos fits

theorem follow_stops {count low high bits : Nat} {byte : UInt8}
    (outside : ¬ (low ≤ byte.toNat ∧ byte.toNat ≤ high)) (rest : List UInt8) :
    follow (count + 1) low high bits (byte :: rest) = (none, byte :: rest) := if_neg outside

/-- The bytes before a place are read as if they were alone, or the next byte goes with them. -/
theorem follow_cut (count low high bits : Nat) (front rest : List UInt8) :
    follow count low high bits (front ++ rest) =
        ((follow count low high bits front).1, (follow count low high bits front).2 ++ rest) ∨
      ∃ next later, rest = next :: later ∧ (follow count low high bits (front ++ [next])).2 = [] := by
  induction count generalizing low high bits front with
  | zero => exact .inl rfl
  | succ count ih =>
      cases front with
      | nil =>
          cases rest with
          | nil => exact .inl rfl
          | cons next later =>
              by_cases fits : low ≤ next.toNat ∧ next.toNat ≤ high
              · right
                refine ⟨next, later, rfl, ?_⟩
                rw [List.nil_append, follow_fits fits]
                exact follow_nil _ _ _ _
              · exact .inl (follow_stops fits later)
      | cons byte front =>
          by_cases fits : low ≤ byte.toNat ∧ byte.toNat ≤ high
          · rw [List.cons_append, follow_fits fits, follow_fits fits]
            rcases ih 0x80 0xBF (bits * 64 + byte.toNat % 64) front with
              same | ⟨next, later, made, ends⟩
            · exact .inl same
            · right
              refine ⟨next, later, made, ?_⟩
              rw [List.cons_append, follow_fits fits]
              exact ends
          · rw [List.cons_append, follow_stops fits, follow_stops fits]
            exact .inl rfl

theorem decodeFrom_nil (fuel : Nat) : decodeFrom fuel [] = [] := by
  cases fuel <;> rfl

theorem decodeFrom_cut {rest : List UInt8} {whole : Nat} {front : List UInt8}
    (apart : ¬ Cuts front rest) (enough : (front ++ rest).length ≤ whole) :
    decodeFrom whole (front ++ rest) = decodeFrom whole front ++ decodeFrom whole rest := by
  induction whole generalizing front with
  | zero =>
      obtain ⟨rfl, rfl⟩ := List.append_eq_nil_iff.mp (List.length_eq_zero_iff.mp (Nat.le_zero.mp enough))
      rfl
  | succ whole ih =>
      cases front with
      | nil => rfl
      | cons first front =>
          have less : (front ++ rest).length ≤ whole := Nat.le_of_succ_le_succ enough
          have tail : decodeFrom (whole + 1) rest = decodeFrom whole rest := by
            rw [List.length_append] at less
            exact decodeFrom_fuel (by omega) (by omega)
          rw [List.cons_append, tail, decodeFrom, decodeFrom]
          cases leads : lead first.toNat with
          | none => exact congrArg (none :: ·) (ih (fun cuts => apart (cuts.before [first])) less)
          | some found =>
              obtain ⟨count, low, high, bits⟩ := found
              rcases follow_cut count low high bits front rest with same | ⟨next, later, made, ends⟩
              · obtain ⟨used, shape⟩ := follow_suffix count low high bits front
                simp only [same, List.cons_append]
                congr 1
                apply ih
                · intro cuts
                  have longer := cuts.before (first :: used)
                  rw [List.cons_append, shape] at longer
                  exact apart longer
                · have short := follow_length count low high bits front
                  rw [List.length_append] at less ⊢
                  omega
              · refine absurd ⟨[], first :: front, next, later, rfl, List.cons_ne_nil _ _, made, ?_⟩ apart
                rw [List.cons_append, decode, List.length_cons, decodeFrom, leads]
                simp only [ends, decodeFrom_nil, List.length_singleton]

/-- Decoding is cut at a place that is not inside a character. -/
theorem decode_cut {front rest : List UInt8} (apart : ¬ Cuts front rest) :
    decode (front ++ rest) = decode front ++ decode rest := by
  rw [decode, decodeFrom_cut apart (Nat.le_refl _), decode, decode]
  congr 1
  · apply decodeFrom_fuel
    · rw [List.length_append]
      exact Nat.le_add_right _ _
    · exact Nat.le_refl _
  · apply decodeFrom_fuel
    · rw [List.length_append]
      exact Nat.le_add_left _ _
    · exact Nat.le_refl _

theorem lossy_cut {front rest : List UInt8} (apart : ¬ Cuts front rest) :
    (lossy (front ++ rest)).toList = (lossy front).toList ++ (lossy rest).toList := by
  rw [lossy, decode_cut apart, String.toList_ofList, List.map_append, lossy, lossy,
    String.toList_ofList, String.toList_ofList]

/-- Bytes are read part by part when no part ends inside a character. -/
theorem lossy_flatten {parts : List (List UInt8)}
    (apart : ∀ done part later, parts = done ++ part :: later → ¬ Cuts part later.flatten) :
    (lossy parts.flatten).toList = parts.flatMap fun part => (lossy part).toList := by
  induction parts with
  | nil => rfl
  | cons part later ih =>
      rw [List.flatten_cons, lossy_cut (apart [] part later rfl), List.flatMap_cons, ih]
      intro done other rest made
      exact apart (part :: done) other rest (by rw [made, List.cons_append])

theorem decodeFrom_length (fuel : Nat) (bytes : List UInt8) : (decodeFrom fuel bytes).length ≤ fuel := by
  induction fuel generalizing bytes with
  | zero => exact Nat.le_refl 0
  | succ fuel ih =>
      cases bytes with
      | nil => exact Nat.zero_le _
      | cons byte bytes =>
          rw [decodeFrom]
          cases lead byte.toNat with
          | none => exact Nat.succ_le_succ (ih bytes)
          | some found => exact Nat.succ_le_succ (ih _)

theorem decode_length (bytes : List UInt8) : (decode bytes).length ≤ bytes.length :=
  decodeFrom_length _ _

/-- Bytes that are read as one begin with a byte that leads and one that may follow it. -/
theorem decode_pair {first second : UInt8} {more : List UInt8}
    (one : (decode (first :: second :: more)).length = 1) :
    ∃ count low high bits, lead first.toNat = some (count + 1, low, high, bits) ∧
      low ≤ second.toNat ∧ second.toNat ≤ high := by
  have later (fuel : Nat) (byte : UInt8) (rest : List UInt8) :
      (decodeFrom (fuel + 1) (byte :: rest)).length ≠ 0 := by
    rw [decodeFrom]
    cases lead byte.toNat with
    | none => exact Nat.succ_ne_zero _
    | some found => exact Nat.succ_ne_zero _
  rw [decode, List.length_cons, decodeFrom] at one
  cases leads : lead first.toNat with
  | none =>
      rw [leads] at one
      exact absurd (Nat.succ.inj one) (later _ _ _)
  | some found =>
      obtain ⟨count, low, high, bits⟩ := found
      rw [leads] at one
      cases count with
      | zero => exact absurd (Nat.succ.inj one) (later _ _ _)
      | succ count =>
          by_cases fits : low ≤ second.toNat ∧ second.toNat ≤ high
          · exact ⟨count, low, high, bits, rfl, fits⟩
          · simp only [follow_stops fits] at one
            exact absurd (Nat.succ.inj one) (later _ _ _)

/-- Two bytes that are read as one. -/
theorem decode_pair_iff {first second : UInt8} : (decode [first, second]).length = 1 ↔
    ∃ count low high bits, lead first.toNat = some (count + 1, low, high, bits) ∧
      low ≤ second.toNat ∧ second.toNat ≤ high := by
  refine ⟨decode_pair, ?_⟩
  rintro ⟨count, low, high, bits, leads, fits⟩
  rw [decode, List.length_cons, decodeFrom, leads]
  simp only [follow_fits fits, follow_nil, decodeFrom_nil, List.length_singleton]

/-- A place inside a character has two bytes near it that are read as one. -/
theorem Cuts.pair {front rest : List UInt8} (cuts : Cuts front rest) :
    ∃ before first second later, front ++ rest = before ++ first :: second :: later ∧
      (decode [first, second]).length = 1 := by
  obtain ⟨before, part, next, later, rfl, some, rfl, one⟩ := cuts
  cases part with
  | nil => exact absurd rfl some
  | cons first part =>
      cases part with
      | nil => exact ⟨before, first, next, later, by simp, one⟩
      | cons second part =>
          exact ⟨before, first, second, part ++ next :: later, by simp,
            decode_pair_iff.mpr (decode_pair one)⟩

theorem lead_of_ascii {byte : Nat} (ascii : byte < 128) : lead byte = some (0, 0x80, 0xBF, byte) :=
  if_pos ascii

theorem lead_of_high {byte count low high bits : Nat} (large : ¬ byte < 128)
    (leads : lead byte = some (count, low, high, bits)) : count ≠ 0 := by
  unfold lead at leads
  rw [if_neg large] at leads
  split_ifs at leads <;> cases leads <;> decide

/-- A byte that is alone is a character of ASCII or a missing one. -/
theorem decode_singleton (byte : UInt8) :
    decode [byte] = [if byte.toNat < 128 then some (Char.ofNat byte.toNat) else none] := by
  rw [decode, List.length_singleton, decodeFrom]
  by_cases ascii : byte.toNat < 128
  · rw [lead_of_ascii ascii, if_pos ascii]
    rfl
  · rw [if_neg ascii]
    cases leads : lead byte.toNat with
    | none => rfl
    | some found =>
        obtain ⟨count, low, high, bits⟩ := found
        obtain ⟨more, rfl⟩ := Nat.exists_eq_succ_of_ne_zero (lead_of_high ascii leads)
        rfl

/-- Two bytes that are read as one are not in ASCII. -/
theorem pair_high {first second : UInt8} (one : (decode [first, second]).length = 1) :
    128 ≤ first.toNat ∧ 128 ≤ second.toNat := by
  obtain ⟨count, low, high, bits, leads, fits⟩ := decode_pair_iff.mp one
  refine ⟨?_, Nat.le_trans (lead_low leads) fits.1⟩
  by_contra ascii
  rw [lead_of_ascii (Nat.not_le.mp ascii)] at leads
  cases leads

/-- The character that a byte is read as when it is alone. -/
def byteChar (byte : UInt8) : Char :=
  if byte.toNat < 128 then Char.ofNat byte.toNat else '\uFFFD'

theorem lossy_singleton (byte : UInt8) : (lossy [byte]).toList = [byteChar byte] := by
  rw [lossy, String.toList_ofList, decode_singleton, List.map_singleton, byteChar]
  split_ifs <;> rfl

/-- Bytes of which no two are read as one are read one by one. -/
theorem lossy_alone {bytes : List UInt8} (alone : ∀ before first second later,
    bytes = before ++ first :: second :: later → (decode [first, second]).length ≠ 1) :
    (lossy bytes).toList = bytes.map byteChar := by
  induction bytes with
  | nil => rfl
  | cons byte rest ih =>
      have apart : ¬ Cuts [byte] rest := by
        intro cuts
        obtain ⟨before, first, second, later, made, one⟩ := cuts.pair
        exact alone before first second later made one
      have first := lossy_cut apart
      rw [List.singleton_append, lossy_singleton, List.singleton_append] at first
      rw [first, List.map_cons, ih]
      intro before first second later made
      exact alone (byte :: before) first second later (by rw [made, List.cons_append])

end Text
