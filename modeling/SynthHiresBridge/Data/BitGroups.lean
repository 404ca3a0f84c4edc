import Mathlib.Algebra.Group.Nat.Defs
import Mathlib.Data.List.Basic

namespace BitGroups

/-- The last bits of a number, the highest first. -/
def bits : Nat → Nat → List Bool
  | 0, _ => []
  | width + 1, number => number.testBit width :: bits width number

/-- The number whose bits these are. -/
def value : List Bool → Nat
  | [] => 0
  | bit :: rest => bit.toNat * 2 ^ rest.length + value rest

theorem length_bits (width number : Nat) : (bits width number).length = width := by
  induction width with
  | zero => rfl
  | succ width ih => rw [bits, List.length_cons, ih]

theorem value_lt (list : List Bool) : value list < 2 ^ list.length := by
  induction list with
  | nil => exact Nat.one_pos
  | cons bit rest ih =>
      have most : bit.toNat * 2 ^ rest.length ≤ 1 * 2 ^ rest.length :=
        Nat.mul_le_mul_right _ (Bool.toNat_le bit)
      rw [value, List.length_cons, Nat.pow_succ]
      omega

theorem value_append (front back : List Bool) :
    value (front ++ back) = value front * 2 ^ back.length + value back := by
  induction front with
  | nil => rw [List.nil_append, value, Nat.zero_mul, Nat.zero_add]
  | cons bit rest ih =>
      rw [List.cons_append, value, value, ih, List.length_append, Nat.pow_add, Nat.add_mul,
        Nat.mul_assoc, Nat.add_assoc]

theorem value_zeros (count : Nat) : value (List.replicate count false) = 0 := by
  induction count with
  | zero => rfl
  | succ count ih => rw [List.replicate_succ, value, ih, Bool.toNat_false, Nat.zero_mul]

theorem value_bits (width number : Nat) : value (bits width number) = number % 2 ^ width := by
  induction width with
  | zero => rw [bits, value, Nat.pow_zero, Nat.mod_one]
  | succ width ih =>
      rw [bits, value, ih, length_bits, Nat.testBit_eq_decide_div_mod_eq, Nat.pow_succ,
        Nat.mod_mul]
      rcases Nat.mod_two_eq_zero_or_one (number / 2 ^ width) with even | odd
      · rw [even]
        simp
      · rw [odd]
        simp [Nat.add_comm]

/-- Bits of one length are told apart by their number. -/
theorem eq_of_value {first second : List Bool} (size : first.length = second.length)
    (same : value first = value second) : first = second := by
  induction first generalizing second with
  | nil => exact (List.length_eq_zero_iff.mp size.symm).symm
  | cons bit rest ih =>
      cases second with
      | nil => cases size
      | cons other more =>
          have length : rest.length = more.length := Nat.succ.inj size
          have low := value_lt rest
          have high := value_lt more
          rw [value, value, length] at same
          rw [length] at low
          cases bit <;> cases other <;> simp only [Bool.toNat_true, Bool.toNat_false] at same
          · rw [ih length (by omega)]
          · omega
          · omega
          · rw [ih length (by omega)]

/-- The bit string of a list of bytes. -/
def ofBytes (bytes : List UInt8) : List Bool := bytes.flatMap fun byte => bits 8 byte.toNat

theorem ofBytes_cons (byte : UInt8) (bytes : List UInt8) :
    ofBytes (byte :: bytes) = bits 8 byte.toNat ++ ofBytes bytes := List.flatMap_cons

theorem length_ofBytes (bytes : List UInt8) : (ofBytes bytes).length = 8 * bytes.length := by
  induction bytes with
  | nil => rfl
  | cons byte bytes ih =>
      rw [ofBytes_cons, List.length_append, length_bits, ih, List.length_cons]
      omega

theorem value_ofBytes_cons (byte : UInt8) (bytes : List UInt8) : value (ofBytes (byte :: bytes)) =
    byte.toNat * 2 ^ (8 * bytes.length) + value (ofBytes bytes) := by
  rw [ofBytes_cons, value_append, value_bits, length_ofBytes, Nat.mod_eq_of_lt byte.toNat_lt]

/-- The group at an index, which zeros complete beyond the end. -/
def group (width : Nat) (list : List Bool) (index : Nat) : List Bool :=
  (List.range width).map fun place => list.getD (index * width + place) false

/-- The groups of a list of bits, as many as it takes to hold them all. -/
def groups (width : Nat) (list : List Bool) : List (List Bool) :=
  (List.range ((list.length + (width - 1)) / width)).map (group width list)

theorem length_group (width : Nat) (list : List Bool) (index : Nat) :
    (group width list index).length = width := by
  rw [group, List.length_map, List.length_range]

theorem length_groups (width : Nat) (list : List Bool) :
    (groups width list).length = (list.length + (width - 1)) / width := by
  rw [groups, List.length_map, List.length_range]

theorem groups_nil {width : Nat} (some : 0 < width) : groups width [] = [] := by
  have none : (0 + (width - 1)) / width = 0 := Nat.div_eq_of_lt (by omega)
  rw [groups, List.length_nil, none, List.range_zero, List.map_nil]

theorem group_succ (width : Nat) (list : List Bool) (index : Nat) :
    group width list (index + 1) = group width (list.drop width) index := by
  apply List.map_congr_left
  intro place _
  have position : (index + 1) * width + place = width + (index * width + place) := by
    rw [Nat.succ_mul]
    omega
  rw [position, List.getD_eq_getElem?_getD, List.getD_eq_getElem?_getD, List.getElem?_drop]

theorem group_zero {width : Nat} {list : List Bool} (enough : width ≤ list.length) :
    group width list 0 = list.take width := by
  apply List.ext_getElem
  · rw [length_group, List.length_take, Nat.min_eq_left enough]
  · intro place inside _
    have small : place < width := by rwa [length_group] at inside
    simp [group, List.getElem?_eq_getElem (show place < list.length by omega)]

theorem group_short {width : Nat} {list : List Bool} (less : list.length ≤ width) :
    group width list 0 = list ++ List.replicate (width - list.length) false := by
  apply List.ext_getElem
  · rw [length_group, List.length_append, List.length_replicate]
    omega
  · intro place inside _
    by_cases within : place < list.length
    · simp [group, List.getElem_append_left within, List.getElem?_eq_getElem within]
    · have beyond : list.length ≤ place := Nat.le_of_not_lt within
      simp [group, List.getElem_append_right beyond, List.getElem?_eq_none beyond]

theorem groups_of_le {width : Nat} {list : List Bool} (some : 0 < width)
    (enough : width ≤ list.length) :
    groups width list = list.take width :: groups width (list.drop width) := by
  have count : (list.length + (width - 1)) / width =
      (list.length - width + (width - 1)) / width + 1 := by
    rw [← Nat.add_div_right _ some]
    congr 1
    omega
  rw [groups, groups, count, List.range_succ_eq_map, List.map_cons, group_zero enough,
    List.map_map, List.length_drop]
  congr 1
  apply List.map_congr_left
  intro index _
  exact group_succ width list index

theorem groups_of_lt {width : Nat} {list : List Bool} (some : list ≠ [])
    (less : list.length < width) :
    groups width list = [list ++ List.replicate (width - list.length) false] := by
  have positive : 0 < list.length := List.length_pos_iff.mpr some
  have count : (list.length + (width - 1)) / width = 1 := by
    have split : list.length + (width - 1) = list.length - 1 + width := by omega
    rw [split, Nat.add_div_right _ (by omega), Nat.div_eq_of_lt (by omega)]
  rw [groups, count]
  simp only [List.range_one, List.map_cons, List.map_nil, group_short (Nat.le_of_lt less)]

/-- Whole groups in front leave the others as they are. -/
theorem groups_append {width count : Nat} {front : List Bool} (rest : List Bool)
    (some : 0 < width) (whole : front.length = count * width) :
    groups width (front ++ rest) = groups width front ++ groups width rest := by
  induction count generalizing front with
  | zero =>
      have empty : front = [] := List.length_eq_zero_iff.mp (by rw [whole, Nat.zero_mul])
      rw [empty, List.nil_append, groups_nil some, List.nil_append]
  | succ count ih =>
      have enough : width ≤ front.length := by
        rw [whole, Nat.succ_mul]
        exact Nat.le_add_left _ _
      have more : width ≤ (front ++ rest).length := by
        rw [List.length_append]
        omega
      have less : (front.drop width).length = count * width := by
        rw [List.length_drop, whole, Nat.succ_mul, Nat.add_sub_cancel]
      rw [groups_of_le some more, groups_of_le some enough, List.take_append_of_le_length enough,
        List.drop_append_of_le_length enough, ih less, List.cons_append]

/-- Zeros that complete the last group change none. -/
theorem groups_zeros {width count : Nat} {list : List Bool}
    (same : (list.length + count + (width - 1)) / width = (list.length + (width - 1)) / width) :
    groups width (list ++ List.replicate count false) = groups width list := by
  have reads : ∀ index, (list ++ List.replicate count false).getD index false =
      list.getD index false := by
    intro index
    by_cases within : index < list.length
    · simp [List.getElem?_append_left within]
    · have beyond : list.length ≤ index := Nat.le_of_not_lt within
      rw [List.getD_eq_getElem?_getD, List.getD_eq_getElem?_getD,
        List.getElem?_append_right beyond, List.getElem?_eq_none beyond, List.getElem?_replicate]
      split <;> rfl
  rw [groups, groups, List.length_append, List.length_replicate, same]
  apply List.map_congr_left
  intro index _
  apply List.map_congr_left
  intro place _
  exact reads _

/-- Groups that the bits fill are their first bits. -/
theorem flatten_take_groups {width count : Nat} {list : List Bool} (some : 0 < width)
    (enough : count * width ≤ list.length) :
    ((groups width list).take count).flatten = list.take (count * width) := by
  induction count generalizing list with
  | zero => rw [List.take_zero, List.flatten_nil, Nat.zero_mul, List.take_zero]
  | succ count ih =>
      have one : width ≤ list.length := by
        rw [Nat.succ_mul] at enough
        omega
      have less : count * width ≤ (list.drop width).length := by
        rw [List.length_drop]
        rw [Nat.succ_mul] at enough
        omega
      rw [groups_of_le some one, List.take_succ_cons, List.flatten_cons, ih less, Nat.succ_mul,
        Nat.add_comm, List.take_add]

/-- Shifted bits and the bits below them share a word. -/
theorem or_shift {low shift width : Nat} (high : Nat) (small : low < 2 ^ shift)
    (room : shift ≤ width) :
    high <<< shift % 2 ^ width ||| low = (high * 2 ^ shift + low) % 2 ^ width := by
  have size : 2 ^ width = 2 ^ shift * 2 ^ (width - shift) := by
    rw [← Nat.pow_add, Nat.add_sub_cancel' room]
  have cut : high <<< shift % 2 ^ width = (high % 2 ^ (width - shift)) <<< shift := by
    rw [Nat.shiftLeft_eq, Nat.shiftLeft_eq, size, Nat.mul_comm high, Nat.mul_mod_mul_left,
      Nat.mul_comm]
  rw [cut, ← Nat.shiftLeft_add_eq_or_of_lt small, Nat.shiftLeft_eq, size, Nat.mod_mul,
    Nat.add_comm (high * _) low, Nat.add_mul_mod_self_right, Nat.mod_eq_of_lt small,
    Nat.add_mul_div_right _ _ (Nat.two_pow_pos _), Nat.div_eq_of_lt small, Nat.zero_add,
    Nat.add_comm, Nat.mul_comm]

/-- The last bits of a register are the ones that wait. -/
def Holds (register : Nat) (waiting : List Bool) : Prop :=
  register % 2 ^ waiting.length = value waiting

namespace Holds

variable {register : Nat} {front back : List Bool}

theorem self (list : List Bool) : Holds (value list) list := Nat.mod_eq_of_lt (value_lt list)

/-- Bits ahead of the others are what a shift leaves. -/
theorem ahead (holds : Holds register (front ++ back)) :
    register / 2 ^ back.length % 2 ^ front.length = value front := by
  have size : (front ++ back).length = back.length + front.length := by
    rw [List.length_append, Nat.add_comm]
  have split : register % 2 ^ (back.length + front.length) =
      value front * 2 ^ back.length + value back := by
    rw [← size, holds, value_append]
  rw [Nat.pow_add, Nat.mod_mul] at split
  have low : register % 2 ^ back.length < 2 ^ back.length := Nat.mod_lt _ (Nat.two_pow_pos _)
  have high := value_lt back
  have quotient := congrArg (· / 2 ^ back.length) split
  rw [Nat.add_comm (register % _), Nat.mul_add_div (Nat.two_pow_pos _), Nat.div_eq_of_lt low,
    Nat.add_zero, Nat.mul_comm (value _), Nat.mul_add_div (Nat.two_pow_pos _),
    Nat.div_eq_of_lt high, Nat.add_zero] at quotient
  exact quotient

/-- A register still holds the bits behind the ones that are taken. -/
theorem behind (holds : Holds register (front ++ back)) : Holds register back := by
  have size : 2 ^ (front ++ back).length = 2 ^ back.length * 2 ^ front.length := by
    rw [List.length_append, Nat.add_comm, Nat.pow_add]
  have small := value_lt back
  calc register % 2 ^ back.length
      = register % 2 ^ (front ++ back).length % 2 ^ back.length := by
        rw [size, Nat.mod_mul_right_mod]
    _ = (value front * 2 ^ back.length + value back) % 2 ^ back.length := by
        rw [holds, value_append]
    _ = value back := by
        rw [Nat.add_comm, Nat.add_mul_mod_self_right, Nat.mod_eq_of_lt small]

/-- What is shifted in waits behind the others. -/
theorem push (holds : Holds register front) (back : List Bool) :
    Holds (register * 2 ^ back.length + value back) (front ++ back) := by
  have small := value_lt back
  have size : 2 ^ (front ++ back).length = 2 ^ back.length * 2 ^ front.length := by
    rw [List.length_append, Nat.add_comm, Nat.pow_add]
  rw [Holds, size, Nat.mod_mul, value_append, Nat.add_comm (register * _),
    Nat.add_mul_mod_self_right, Nat.mod_eq_of_lt small, Nat.add_mul_div_right _ _
    (Nat.two_pow_pos _), Nat.div_eq_of_lt small, Nat.zero_add, holds, Nat.add_comm,
    Nat.mul_comm]

/-- Zeros shifted in complete the bits that wait. -/
theorem fill (holds : Holds register front) (count : Nat) :
    register * 2 ^ count % 2 ^ (front.length + count) =
      value (front ++ List.replicate count false) := by
  have filled := holds.push (List.replicate count false)
  rw [Holds, value_zeros, Nat.add_zero, List.length_append, List.length_replicate] at filled
  exact filled

/-- High bits that are lost were not waiting. -/
theorem of_mod {width : Nat} (room : front.length ≤ width) :
    Holds (register % 2 ^ width) front ↔ Holds register front := by
  rw [Holds, Holds, Nat.mod_mod_of_dvd _ (Nat.pow_dvd_pow 2 room)]

end Holds

end BitGroups
