import SynthHiresBridge.Data.Clip
import Mathlib.Data.List.Count

namespace Lines

open Clip

variable {Item : Type*} (stop : Item)

/-- Lines with their terminators. -/
def closed (lines : List (List Item)) : List Item := lines.flatMap (· ++ [stop])

/-- Lines that are joined, and a rest that follows them on a line of its own. -/
def joinGroup (group : List (List Item) × List Item) : List Item :=
  [stop].intercalate group.1 ++ if group.2 = [] then [] else stop :: group.2

/-- Neither the lines nor the rest of a group has a terminator. -/
def Clean (group : List (List Item) × List Item) : Prop :=
  (∀ line ∈ group.1, stop ∉ line) ∧ stop ∉ group.2

variable {stop}

theorem closed_append (front rest : List (List Item)) :
    closed stop (front ++ rest) = closed stop front ++ closed stop rest := List.flatMap_append

theorem intercalate_closed {lines : List (List Item)} (filled : lines ≠ []) :
    [stop].intercalate lines ++ [stop] = closed stop lines := by
  induction lines with
  | nil => exact absurd rfl filled
  | cons line rest ih =>
      cases rest with
      | nil => rw [List.intercalate_singleton, closed, List.flatMap_singleton]
      | cons next rest =>
          rw [List.intercalate_cons_of_ne_nil (List.cons_ne_nil _ _), List.append_assoc,
            ih (List.cons_ne_nil _ _)]
          rfl

/-- A rest has a terminator before it when there is one. -/
def opens (group : List (List Item) × List Item) : Nat := if group.2 = [] then 0 else 1

def filled (group : List (List Item) × List Item) : Nat := if group.1 = [] then 0 else 1

variable {groups : List (List (List Item) × List Item)}

/-- All lines of some groups have their own sizes. -/
theorem weight_flatMap_fst (size : List Item → Nat) :
    weight size (groups.flatMap Prod.fst) = weight (fun group => weight size group.1) groups := by
  induction groups with
  | nil => rfl
  | cons group rest ih => rw [List.flatMap_cons, weight_append, ih, weight_cons]

theorem length_flatMap_fst :
    (groups.flatMap Prod.fst).length = weight (fun group => group.1.length) groups := by
  induction groups with
  | nil => rfl
  | cons group rest ih => rw [List.flatMap_cons, List.length_append, ih, weight_cons]

theorem weight_pred_add_filled : weight (fun group => group.1.length - 1) groups +
    weight filled groups = weight (fun group => group.1.length) groups := by
  rw [← weight_add]
  refine weight_congr _ fun group _ => ?_
  rw [filled]
  split_ifs with none
  · rw [none]
    rfl
  · have some := List.length_pos_of_ne_nil none
    omega

theorem filled_eq_zero_iff {group : List (List Item) × List Item} :
    filled group = 0 ↔ group.1 = [] := by
  rw [filled]
  split_ifs with none
  · exact iff_of_true rfl none
  · exact iff_of_false not_false none

theorem opens_eq_zero_iff {group : List (List Item) × List Item} :
    opens group = 0 ↔ group.2 = [] := by
  rw [opens]
  split_ifs with none
  · exact iff_of_true rfl none
  · exact iff_of_false not_false none

variable (stop) in
/-- Groups without lines join nothing. -/
theorem joined_of_empty (none : weight filled groups = 0) : groups.flatMap Prod.fst = [] ∧
    groups.flatMap (fun group => [stop].intercalate group.1) = [] := by
  rw [weight_eq_zero_iff] at none
  rw [List.flatMap_eq_nil_iff, List.flatMap_eq_nil_iff]
  refine ⟨fun group member => filled_eq_zero_iff.mp (none group member), fun group member => ?_⟩
  rw [filled_eq_zero_iff.mp (none group member)]
  rfl

variable (stop) in
theorem joined_of_single (one : weight filled groups = 1) : ∃ lines, lines ≠ [] ∧
    groups.flatMap Prod.fst = lines ∧
    groups.flatMap (fun group => [stop].intercalate group.1) = [stop].intercalate lines := by
  induction groups with
  | nil => cases one
  | cons group rest ih =>
      rw [weight_cons] at one
      rw [List.flatMap_cons, List.flatMap_cons]
      by_cases none : group.1 = []
      · rw [filled_eq_zero_iff.mpr none, Nat.zero_add] at one
        obtain ⟨lines, some, made, joined⟩ := ih one
        rw [none]
        exact ⟨lines, some, made, joined⟩
      · have own : filled group = 1 := if_neg none
        have others : weight filled rest = 0 := by omega
        obtain ⟨made, joined⟩ := joined_of_empty stop others
        exact ⟨group.1, none, by rw [made, List.append_nil], by rw [joined, List.append_nil]⟩

theorem joinGroups_closed {last : List (List Item) × List Item}
    (early : ∀ group ∈ groups, group.2 = []) : (groups ++ [last]).flatMap (joinGroup stop) =
      (groups ++ [last]).flatMap (fun group => [stop].intercalate group.1) ++
        if last.2 = [] then [] else stop :: last.2 := by
  have front : groups.flatMap (joinGroup stop) =
      groups.flatMap fun group => [stop].intercalate group.1 := by
    refine List.flatMap_congr fun group member => ?_
    rw [joinGroup, if_pos (early group member), List.append_nil]
  rw [List.flatMap_append, front, List.flatMap_append, List.flatMap_singleton,
    List.flatMap_singleton, joinGroup, List.append_assoc]

variable [DecidableEq Item]

/-- Joined lines have one terminator less than there are lines. -/
theorem count_intercalate {lines : List (List Item)} (clean : ∀ line ∈ lines, stop ∉ line) :
    ([stop].intercalate lines).count stop = lines.length - 1 ∧
      ([stop].intercalate lines).length = weight List.length lines + (lines.length - 1) := by
  induction lines with
  | nil => exact ⟨rfl, rfl⟩
  | cons line rest ih =>
      obtain ⟨here, later⟩ := List.forall_mem_cons.mp clean
      have none := List.count_eq_zero_of_not_mem here
      cases rest with
      | nil =>
          rw [List.intercalate_singleton, none, weight_singleton]
          exact ⟨rfl, rfl⟩
      | cons next rest =>
          obtain ⟨counted, long⟩ := ih later
          rw [List.intercalate_cons_of_ne_nil (List.cons_ne_nil _ _), List.append_assoc,
            List.count_append, List.count_append, none, counted, List.length_append,
            List.length_append, long, List.count_singleton_self, List.length_singleton,
            weight_cons List.length line]
          simp only [List.length_cons]
          omega

theorem count_closed {lines : List (List Item)} (clean : ∀ line ∈ lines, stop ∉ line) :
    (closed stop lines).count stop = lines.length ∧
      (closed stop lines).length = weight List.length lines + lines.length := by
  induction lines with
  | nil => exact ⟨rfl, rfl⟩
  | cons line rest ih =>
      obtain ⟨here, later⟩ := List.forall_mem_cons.mp clean
      obtain ⟨counted, long⟩ := ih later
      have parts : closed stop (line :: rest) = line ++ [stop] ++ closed stop rest := rfl
      rw [parts, List.count_append, List.count_append, List.count_eq_zero_of_not_mem here, counted,
        List.length_append, List.length_append, long, List.count_singleton_self,
        List.length_singleton, weight_cons, List.length_cons]
      omega

theorem count_joinGroup {group : List (List Item) × List Item} (clean : Clean stop group) :
    (joinGroup stop group).count stop = group.1.length - 1 + opens group ∧
      (joinGroup stop group).length =
        weight List.length group.1 + group.2.length + (group.1.length - 1 + opens group) := by
  obtain ⟨counted, long⟩ := count_intercalate clean.1
  rw [joinGroup, opens, List.count_append, List.length_append, counted, long]
  split_ifs with none
  · rw [none]
    exact ⟨rfl, by simp⟩
  · rw [List.count_cons_self, List.count_eq_zero_of_not_mem clean.2, List.length_cons]
    omega

theorem count_joinGroups (clean : ∀ group ∈ groups, Clean stop group) :
    (groups.flatMap (joinGroup stop)).count stop =
      weight (fun group => group.1.length - 1) groups + weight opens groups ∧
      (groups.flatMap (joinGroup stop)).length =
        weight (fun group => weight List.length group.1) groups +
          weight (fun group => group.2.length) groups +
          (weight (fun group => group.1.length - 1) groups + weight opens groups) := by
  induction groups with
  | nil => exact ⟨rfl, rfl⟩
  | cons group rest ih =>
      obtain ⟨here, later⟩ := List.forall_mem_cons.mp clean
      obtain ⟨counted, long⟩ := ih later
      obtain ⟨own, size⟩ := count_joinGroup here
      rw [List.flatMap_cons, List.count_append, List.length_append, counted, long, own, size]
      simp only [weight_cons]
      omega

/-- Groups that are joined one after another give all lines and the last rest, when no other group
has a rest and one group has lines just if there is a last rest. -/
theorem joinGroups_iff {last : List (List Item) × List Item}
    (clean : ∀ group ∈ groups ++ [last], Clean stop group) :
    (groups ++ [last]).flatMap (joinGroup stop) =
        closed stop ((groups ++ [last]).flatMap Prod.fst) ++ last.2 ↔
      (∀ group ∈ groups, group.2 = []) ∧ weight filled (groups ++ [last]) = opens last := by
  constructor
  · intro same
    obtain ⟨counted, long⟩ := count_joinGroups clean
    have lines : ∀ line ∈ (groups ++ [last]).flatMap Prod.fst, stop ∉ line := by
      intro line member
      obtain ⟨group, inside, own⟩ := List.mem_flatMap.mp member
      exact (clean group inside).1 line own
    obtain ⟨expected, size⟩ := count_closed lines
    have rest := (clean last (List.mem_append_right _ List.mem_cons_self)).2
    rw [same, List.count_append, expected, List.count_eq_zero_of_not_mem rest,
      length_flatMap_fst] at counted
    rw [same, List.length_append, size, length_flatMap_fst, weight_flatMap_fst] at long
    have none : weight (fun group => group.2.length) groups = 0 := by
      rw [weight_append (fun group : List (List Item) × List Item => group.2.length),
        weight_singleton] at long
      omega
    have early : ∀ group ∈ groups, group.2 = [] := by
      intro group member
      exact List.length_eq_zero_iff.mp ((weight_eq_zero_iff _).mp none group member)
    have opened : weight opens groups = 0 :=
      (weight_eq_zero_iff _).mpr fun group member => opens_eq_zero_iff.mpr (early group member)
    refine ⟨early, ?_⟩
    rw [← weight_pred_add_filled, weight_append opens, opened, weight_singleton] at counted
    omega
  · rintro ⟨early, ones⟩
    rw [joinGroups_closed early]
    split_ifs with none
    · rw [opens_eq_zero_iff.mpr none] at ones
      obtain ⟨made, joined⟩ := joined_of_empty stop ones
      rw [made, joined, none]
      rfl
    · have one : opens last = 1 := if_neg none
      rw [one] at ones
      obtain ⟨lines, some, made, joined⟩ := joined_of_single stop ones
      rw [made, joined, ← intercalate_closed some, List.append_assoc, List.singleton_append]

end Lines
