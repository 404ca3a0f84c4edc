import SynthHiresBridge.Daemon.Protocol

namespace Daemon

namespace PairingCode

open BitGroups

/-- The letter of a group of five bits. -/
def letter (group : List Bool) : Char := crockford.getD (value group) '0'

theorem symbol_eq {index : UInt32} {group : List Bool}
    (same : index.toNat % 2 ^ 5 = value group) : symbol index = letter group := by
  have low : (index &&& 0x1f).toNat = index.toNat % 2 ^ 5 := by
    rw [UInt32.toNat_and]
    exact Nat.and_two_pow_sub_one_eq_mod _ 5
  rw [symbol, low, same, letter]

/-- The letters of the alphabet are all different. -/
theorem bits_letter {group : List Bool} (five : group.length = 5) :
    bits 5 (crockford.idxOf (letter group)) = group := by
  have distinct : ∀ index < 32, crockford.idxOf (crockford.getD index '0') = index := by decide
  have low := value_lt group
  rw [five] at low
  apply eq_of_value
  · rw [length_bits, five]
  · rw [letter, distinct _ low, value_bits, Nat.mod_eq_of_lt low]

theorem bits_letters (count : Nat) (list : List Bool) :
    (((groups 5 list).take count).map letter).map (fun char => bits 5 (crockford.idxOf char)) =
      (groups 5 list).take count := by
  have back : ∀ group ∈ (groups 5 list).take count,
      bits 5 (crockford.idxOf (letter group)) = group := by
    intro group member
    obtain ⟨index, _, rfl⟩ := List.mem_map.mp (List.mem_of_mem_take member)
    exact bits_letter (length_group 5 list index)
  rw [List.map_map]
  exact (List.map_congr_left back).trans (List.map_id' _)

variable {buffer : UInt32} {waiting : List Bool}

/-- A byte enters the register, and what the shift loses is not waiting. -/
theorem holds_push (holds : Holds buffer.toNat waiting) (few : waiting.length < 5) (byte : UInt8) :
    Holds (buffer <<< 8 ||| byte.toUInt32).toNat (waiting ++ bits 8 byte.toNat) := by
  have small : byte.toNat < 2 ^ 8 := byte.toNat_lt
  have entered : (buffer <<< 8 ||| byte.toUInt32).toNat =
      (buffer.toNat * 2 ^ 8 + byte.toNat) % 2 ^ 32 := by
    have eight : (8 : UInt32).toNat % 32 = 8 := rfl
    rw [UInt32.toNat_or, UInt32.toNat_shiftLeft, eight, UInt8.toNat_toUInt32,
      or_shift buffer.toNat small (by decide)]
  have room : (waiting ++ bits 8 byte.toNat).length ≤ 32 := by
    rw [List.length_append, length_bits]
    omega
  have pushed := holds.push (bits 8 byte.toNat)
  rw [length_bits, value_bits, Nat.mod_eq_of_lt small] at pushed
  rw [entered]
  exact (Holds.of_mod room).mpr pushed

/-- The symbol that a shift to the right selects. -/
theorem symbol_shift {ahead behind : List Bool} (holds : Holds buffer.toNat (ahead ++ behind))
    (five : ahead.length = 5) (few : behind.length < 32) :
    symbol (buffer >>> UInt32.ofNat behind.length) = letter ahead := by
  have amount : (UInt32.ofNat behind.length).toNat % 32 = behind.length := by
    rw [UInt32.toNat_ofNat']
    omega
  apply symbol_eq
  rw [UInt32.toNat_shiftRight, amount, Nat.shiftRight_eq_div_pow]
  have taken := holds.ahead
  rwa [five] at taken

/-- The last symbol is completed with zeros. -/
theorem symbol_last (holds : Holds buffer.toNat waiting) (few : waiting.length < 5) :
    symbol (buffer <<< UInt32.ofNat (5 - waiting.length)) =
      letter (waiting ++ List.replicate (5 - waiting.length) false) := by
  have amount : (UInt32.ofNat (5 - waiting.length)).toNat % 32 = 5 - waiting.length := by
    rw [UInt32.toNat_ofNat']
    omega
  have filled := holds.fill (5 - waiting.length)
  rw [Nat.add_sub_cancel' (Nat.le_of_lt few)] at filled
  apply symbol_eq
  rw [UInt32.toNat_shiftLeft, amount, Nat.shiftLeft_eq, Nat.mod_mod_of_dvd _ (by decide), filled]

/-- What the loop has still to return, given its output and the bits that follow. -/
def target (chars : Nat) (out : List Char) (following : List Bool) : List Char :=
  out ++ ((groups 5 following).map letter).take (chars - out.length)

theorem target_step {chars : Nat} {out : List Char} (following : List Bool)
    (room : out.length < chars) (enough : 5 ≤ following.length) :
    target chars out following =
      target chars (out ++ [letter (following.take 5)]) (following.drop 5) := by
  obtain ⟨left, more⟩ : ∃ left, chars - out.length = left + 1 :=
    ⟨chars - out.length - 1, by omega⟩
  have less : chars - (out ++ [letter (following.take 5)]).length = left := by
    rw [List.length_append, List.length_singleton]
    omega
  rw [target, target, less, more, groups_of_le (by decide) enough, List.map_cons,
    List.take_succ_cons, List.append_assoc, List.singleton_append]

theorem target_full {chars : Nat} {out : List Char} (full : out.length = chars)
    (following : List Bool) : target chars out following = out := by
  rw [target, full, Nat.sub_self, List.take_zero, List.append_nil]

theorem symbol_five {bits : Nat} (holds : Holds buffer.toNat waiting) (few : waiting.length < 32)
    (size : waiting.length = bits + 5) :
    symbol (buffer >>> UInt32.ofNat bits) = letter (waiting.take 5) := by
  have left : (waiting.drop 5).length = bits := by
    rw [List.length_drop, size, Nat.add_sub_cancel]
  have five : (waiting.take 5).length = 5 := List.length_take_of_le (by omega)
  rw [← List.take_append_drop 5 waiting] at holds
  rw [← left]
  exact symbol_shift holds five (by omega)

/-- The inner loop keeps what is to be returned, whatever bits follow. -/
theorem emit_target {chars : Nat} {out : List Char} (following : List Bool)
    (holds : Holds buffer.toNat waiting) (few : waiting.length < 32) (room : out.length < chars) :
    emit chars buffer waiting.length out = .full (target chars out (waiting ++ following)) ∨
      ∃ held result, emit chars buffer waiting.length out = .more held.length result ∧
        Holds buffer.toNat held ∧ held.length < 5 ∧ result.length < chars ∧
        target chars out (waiting ++ following) = target chars result (held ++ following) := by
  generalize size : waiting.length = count
  fun_induction emit chars buffer count out generalizing waiting with
  | case1 bits out result =>
      rename_i full
      have size : waiting.length = bits + 5 := size
      have shown : result = out ++ [letter (waiting.take 5)] :=
        congrArg (fun char => out ++ [char]) (symbol_five holds few size)
      have step := target_step (waiting ++ following) room
        (by rw [List.length_append]; omega)
      rw [List.take_append_of_le_length (by omega), ← shown, target_full full] at step
      rw [step]
      exact Or.inl rfl
  | case2 bits out result =>
      rename_i notFull ih
      have size : waiting.length = bits + 5 := size
      have left : (waiting.drop 5).length = bits := by
        rw [List.length_drop, size, Nat.add_sub_cancel]
      have shown : result = out ++ [letter (waiting.take 5)] :=
        congrArg (fun char => out ++ [char]) (symbol_five holds few size)
      have longer : result.length = out.length + 1 := by
        rw [shown, List.length_append, List.length_singleton]
      have step := target_step (waiting ++ following) room
        (by rw [List.length_append]; omega)
      rw [List.take_append_of_le_length (by omega), List.drop_append_of_le_length (by omega),
        ← shown] at step
      have behind : Holds buffer.toNat (waiting.drop 5) := by
        rw [← List.take_append_drop 5 waiting] at holds
        exact holds.behind
      rw [step]
      exact ih behind (by omega) (by omega) left
  | case3 bits out less =>
      right
      refine ⟨waiting, out, ?_, holds, ?_, room, rfl⟩
      · rw [size]
      · rw [size]
        by_contra many
        exact less (bits - 5) (by omega)

/-- The loop over the bytes returns what the groups of all bits give. -/
theorem toCrockfordFrom_eq {chars : Nat} {out : List Char} (bytes : List UInt8)
    (holds : Holds buffer.toNat waiting) (few : waiting.length < 5) (room : out.length < chars) :
    toCrockfordFrom chars bytes buffer waiting.length out =
      target chars out (waiting ++ ofBytes bytes) := by
  induction bytes generalizing buffer waiting out with
  | nil =>
      have all : waiting ++ ofBytes [] = waiting := List.append_nil waiting
      rw [toCrockfordFrom, all, target]
      by_cases some : 0 < waiting.length
      · have one : 1 ≤ chars - out.length := by omega
        rw [if_pos ⟨some, room⟩, symbol_last holds few,
          groups_of_lt (List.length_pos_iff.mp some) few, List.map_singleton,
          List.take_of_length_le one]
      · have none : waiting = [] := List.length_eq_zero_iff.mp (by omega)
        rw [if_neg (by tauto), none, groups_nil (by decide), List.map_nil, List.take_nil,
          List.append_nil]
  | cons byte bytes ih =>
      have pushed := holds_push holds few byte
      have size : (waiting ++ bits 8 byte.toNat).length = waiting.length + 8 := by
        rw [List.length_append, length_bits]
      rw [toCrockfordFrom, ofBytes_cons, ← List.append_assoc, ← size]
      rcases emit_target (ofBytes bytes) pushed (by omega) room with
        full | ⟨held, result, more, holds, few, room, same⟩
      · rw [full]
      · rw [more, same]
        exact ih holds few room

theorem toCrockford_toList {chars : Nat} (some : 1 ≤ chars) (bytes : List UInt8) :
    (toCrockford bytes chars).toList = ((groups 5 (ofBytes bytes)).take chars).map letter := by
  have holds : Holds (0 : UInt32).toNat [] := rfl
  have eq := toCrockfordFrom_eq bytes holds (by decide) (show ([] : List Char).length < chars from some)
  rw [toCrockford, String.toList_ofList]
  rw [target, List.nil_append, List.nil_append, ← List.map_take] at eq
  exact eq

/-- A pairing code spells the first five-bit groups of its bytes, the last one completed with
zeros, and so codes of enough bits differ as the bits do. -/
theorem toCrockford_spells_groups {chars : Nat} (some : 1 ≤ chars) :
    (∀ bytes, (toCrockford bytes chars).toList =
        ((groups 5 (ofBytes bytes)).take chars).map letter ∧
      (toCrockford bytes chars).toList.length = min chars ((8 * bytes.length + 4) / 5)) ∧
    ∀ first second, chars * 5 ≤ 8 * first.length → chars * 5 ≤ 8 * second.length →
      toCrockford first chars = toCrockford second chars →
      (ofBytes first).take (chars * 5) = (ofBytes second).take (chars * 5) := by
  constructor
  · intro bytes
    refine ⟨toCrockford_toList some bytes, ?_⟩
    rw [toCrockford_toList some, List.length_map, List.length_take, length_groups, length_ofBytes]
  · intro first second enough more same
    have letters := congrArg String.toList same
    rw [toCrockford_toList some, toCrockford_toList some] at letters
    have alike := bits_letters chars (ofBytes first)
    rw [letters, bits_letters] at alike
    have one := flatten_take_groups (by decide) (le_of_le_of_eq enough (length_ofBytes first).symm)
    have two := flatten_take_groups (by decide) (le_of_le_of_eq more (length_ofBytes second).symm)
    rw [← one, ← two, alike]

theorem toCrockford_spells_groups_six : (toCrockford [255, 0, 255, 0, 255] 6).toList =
    ((groups 5 (ofBytes [255, 0, 255, 0, 255])).take 6).map letter :=
  ((toCrockford_spells_groups (by decide)).1 [255, 0, 255, 0, 255]).1

/-- Thirty bits fill the six characters. -/
theorem length_generatePairingCode (bytes : Vector UInt8 5) :
    (generatePairingCode bytes).toList.length = 6 := by
  rw [generatePairingCode, toCrockford_toList (by decide), List.length_map, List.length_take,
    length_groups, length_ofBytes, Vector.length_toList]
  rfl

end PairingCode

end Daemon
