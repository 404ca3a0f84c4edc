import SynthHiresBridge.Data.Climb
import SynthHiresBridge.Daemon.BrowserPage

namespace Daemon

open Climb

namespace ParentMaps

variable (maps : ParentMaps)

/-- The climb stops at a node that is its own parent. -/
def climb (id : String) : Option String := (maps.parent id).filter fun above => above ≠ id

/-- A cache holds depths of the climb only. -/
def Correct (cache : Table String Nat) : Prop :=
  ∀ id depth, cache.lookup id = some depth → Depth maps.climb id depth

/-- The depth that a tree gives a node, where an endless chain gives zero. -/
def Expected (id : String) (depth : Nat) : Prop :=
  (Endless maps.parent id ∧ depth = 0) ∨ Depth maps.parent id depth

variable {maps}

theorem climb_eq_none_iff (id : String) :
    maps.climb id = none ↔ maps.parent id = none ∨ maps.parent id = some id := by
  rw [climb]
  cases maps.parent id with
  | none => simp
  | some above => simp [Option.filter_eq_none_iff]

theorem climb_eq_some_iff (id above : String) :
    maps.climb id = some above ↔ maps.parent id = some above ∧ above ≠ id := by
  rw [climb, Option.filter_eq_some_iff]
  simp

/-- A chain that ends has no node that is its own parent. -/
theorem depth_climb {id : String} {depth : Nat} (measured : Depth maps.parent id depth) :
    Depth maps.climb id depth := by
  induction measured with
  | root id none => exact .root id ((climb_eq_none_iff id).mpr (.inl none))
  | child id above depth up rest ih =>
      refine .child id above depth ((climb_eq_some_iff id above).mpr ⟨up, ?_⟩) ih
      rintro rfl
      exact absurd (rest.unique (.child above above depth up rest)) (by omega)

theorem depth_of_own {id : String} (own : maps.parent id = some id) : Depth maps.climb id 0 :=
  .root id ((climb_eq_none_iff id).mpr (.inr own))

theorem Correct.empty : maps.Correct ∅ := by
  intro id depth known
  rw [AList.lookup_empty] at known
  cases known

theorem Correct.insert {cache : Table String Nat} (correct : maps.Correct cache) {id : String}
    {depth : Nat} (measured : Depth maps.climb id depth) : maps.Correct (cache.insert id depth) := by
  intro other found known
  by_cases same : other = id
  · subst same
    rw [AList.lookup_insert] at known
    cases known
    exact measured
  · rw [AList.lookup_insert_ne same] at known
    exact correct other found known

/-- What the climb returns is a depth, and its cache holds depths. -/
theorem axDepth_correct {fuel : Nat} {cache after : Table String Nat} {id : String} {depth : Nat}
    (correct : maps.Correct cache) (ran : axDepth fuel maps cache id = some (depth, after)) :
    Depth maps.climb id depth ∧ maps.Correct after := by
  induction fuel generalizing cache after id depth with
  | zero => cases ran
  | succ fuel ih =>
      rw [axDepth] at ran
      cases known : cache.lookup id with
      | some found =>
          rw [known] at ran
          cases ran
          exact ⟨correct id depth known, correct⟩
      | none =>
          rw [known] at ran
          cases up : maps.parent id with
          | none =>
              rw [up] at ran
              cases ran
              have measured : Depth maps.climb id 0 :=
                .root id ((climb_eq_none_iff id).mpr (.inl up))
              exact ⟨measured, correct.insert measured⟩
          | some above =>
              rw [up] at ran
              by_cases own : above = id
              · subst own
                simp only [ne_eq, not_true, if_false] at ran
                cases ran
                exact ⟨depth_of_own up, correct.insert (depth_of_own up)⟩
              · simp only [ne_eq, own, not_false_iff, if_true] at ran
                obtain ⟨climbed, higher, same⟩ := Option.map_eq_some_iff.mp ran
                obtain ⟨measured, kept⟩ := ih correct higher
                cases same
                have measured : Depth maps.climb id (climbed.1 + 1) :=
                  .child id above climbed.1 ((climb_eq_some_iff id above).mpr ⟨up, own⟩) measured
                exact ⟨measured, kept.insert measured⟩

/-- Enough fuel reaches the end of a chain that ends. -/
theorem axDepth_returns {cache : Table String Nat} {id : String} {depth fuel : Nat}
    (correct : maps.Correct cache) (measured : Depth maps.climb id depth) (enough : depth < fuel) :
    ∃ after, axDepth fuel maps cache id = some (depth, after) := by
  obtain ⟨fuel, rfl⟩ : ∃ less, fuel = less + 1 := ⟨fuel - 1, by omega⟩
  induction measured generalizing fuel with
  | root id none =>
      rw [axDepth]
      cases known : cache.lookup id with
      | some found =>
          rw [(correct id found known).unique (.root id none)]
          exact ⟨cache, rfl⟩
      | none =>
          rcases (climb_eq_none_iff id).mp none with none | own
          · rw [none]
            exact ⟨_, rfl⟩
          · rw [own]
            exact ⟨cache.insert id 0, by simp⟩
  | child id above depth up rest ih =>
      rw [axDepth]
      cases known : cache.lookup id with
      | some found =>
          rw [(correct id found known).unique (.child id above depth up rest)]
          exact ⟨cache, rfl⟩
      | none =>
          obtain ⟨higher, other⟩ := (climb_eq_some_iff id above).mp up
          obtain ⟨fuel, rfl⟩ : ∃ less, fuel = less + 1 := ⟨fuel - 1, by omega⟩
          obtain ⟨after, ran⟩ := ih fuel (by omega)
          rw [higher]
          exact ⟨after.insert id (depth + 1), by simp [other, ran]⟩

theorem exists_above (ids : List String) (answer : String → Nat) :
    ∃ bound, ∀ id ∈ ids, answer id < bound := by
  induction ids with
  | nil => exact ⟨0, fun id member => absurd member List.not_mem_nil⟩
  | cons id ids ih =>
      obtain ⟨bound, all⟩ := ih
      refine ⟨max (answer id + 1) bound, List.forall_mem_cons.mpr ⟨?_, fun other member => ?_⟩⟩
      · exact Nat.lt_of_lt_of_le (Nat.lt_succ_self _) (Nat.le_max_left _ _)
      · exact Nat.lt_of_lt_of_le (all other member) (Nat.le_max_right _ _)

/-- Queries in any order return the depths, whatever the cache already holds. -/
theorem axDepths_returns {ids : List String} {answer : String → Nat}
    (measured : ∀ id ∈ ids, Depth maps.climb id (answer id)) :
    ∃ fuel, ∀ cache, maps.Correct cache →
      ∃ after, axDepths fuel maps cache ids = some (ids.map answer, after) := by
  obtain ⟨fuel, enough⟩ := exists_above ids answer
  refine ⟨fuel, ?_⟩
  induction ids with
  | nil =>
      intro cache _
      exact ⟨cache, rfl⟩
  | cons id ids ih =>
      intro cache correct
      rw [List.forall_mem_cons] at measured enough
      obtain ⟨after, ran⟩ := axDepth_returns correct measured.1 enough.1
      obtain ⟨last, later⟩ := ih measured.2 enough.2 after (axDepth_correct correct ran).2
      refine ⟨last, ?_⟩
      rw [axDepths, ran, Option.bind_some, later]
      rfl

/-- The depths of the nodes that are asked for, in any order and any number of times. -/
def Sound (maps : ParentMaps) (ids : List String) : Prop :=
  ∃ answer : String → Nat, (∀ id ∈ ids, maps.Expected id (answer id)) ∧
    ∀ queries : List String, (∀ id ∈ queries, id ∈ ids) →
      ∃ fuel after, axDepths fuel maps ∅ queries = some (queries.map answer, after)

/-- A chain of parents ends, or the node is its own parent. -/
def Bounded (maps : ParentMaps) (id : String) : Prop :=
  ¬Endless maps.parent id ∨ maps.parent id = some id

theorem depth_of_bounded {id : String} (bounded : maps.Bounded id) :
    ∃ depth, Depth maps.climb id depth ∧ maps.Expected id depth := by
  rcases endless_or_depth maps.parent id with endless | ⟨depth, measured⟩
  · rcases bounded with ends | own
    · exact absurd endless ends
    · exact ⟨0, depth_of_own own, .inl ⟨endless, rfl⟩⟩
  · exact ⟨depth, depth_climb measured, .inr measured⟩

theorem bounded_of_expected {id : String} {depth : Nat} (measured : Depth maps.climb id depth)
    (expected : maps.Expected id depth) : maps.Bounded id := by
  rcases expected with ⟨endless, rfl⟩ | ends
  · cases measured with
    | root _ none =>
        rcases (climb_eq_none_iff id).mp none with missing | own
        · exact .inl (Depth.root id missing).not_endless
        · exact .inr own
  · exact .inl ends.not_endless

end ParentMaps

/-- The depths of the nodes of a tree are found in any order exactly when each chain of parents
ends or starts at a node that is its own parent. -/
theorem axDepth_sound_iff (nodes : List AxNode) (ids : List String) :
    (axParentMaps nodes).Sound ids ↔ ∀ id ∈ ids, (axParentMaps nodes).Bounded id := by
  generalize axParentMaps nodes = maps
  constructor
  · rintro ⟨answer, expected, returns⟩ id member
    obtain ⟨fuel, after, ran⟩ := returns [id] (by simpa using member)
    rw [axDepths] at ran
    obtain ⟨climbed, first, later⟩ := Option.bind_eq_some_iff.mp ran
    simp only [axDepths, Option.map_some, List.map_cons, List.map_nil, Option.some.injEq,
      Prod.mk.injEq, List.cons.injEq, and_true] at later
    obtain ⟨measured, _⟩ := ParentMaps.axDepth_correct ParentMaps.Correct.empty first
    rw [later.1] at measured
    exact ParentMaps.bounded_of_expected measured (expected id member)
  · intro bounded
    have each : ∀ id, ∃ depth, id ∈ ids → Depth maps.climb id depth ∧ maps.Expected id depth := by
      intro id
      by_cases member : id ∈ ids
      · obtain ⟨depth, measured⟩ := ParentMaps.depth_of_bounded (bounded id member)
        exact ⟨depth, fun _ => measured⟩
      · exact ⟨0, fun inside => absurd inside member⟩
    choose answer measured using each
    refine ⟨answer, fun id member => (measured id member).2, fun queries inside => ?_⟩
    obtain ⟨fuel, returns⟩ := ParentMaps.axDepths_returns
      fun id member => (measured id (inside id member)).1
    obtain ⟨after, ran⟩ := returns ∅ ParentMaps.Correct.empty
    exact ⟨fuel, after, ran⟩

/-- A node of the accessibility tree that only names its parent. -/
def AxNode.under (id parent : String) : AxNode where
  nodeId := id
  ignored := false
  role := none
  name := none
  value := none
  properties := none
  parentId := some parent
  childIds := none
  backendDomNodeId := none

/-- Two nodes that name each other as their parent. -/
theorem axDepth_two_cycle : ¬(axParentMaps [.under "a" "b", .under "b" "a"]).Sound ["a"] := by
  rintro ⟨answer, _, returns⟩
  obtain ⟨fuel, after, ran⟩ := returns ["a"] (by simp)
  obtain ⟨climbed, first, _⟩ := Option.bind_eq_some_iff.mp ran
  have measured := (ParentMaps.axDepth_correct ParentMaps.Correct.empty first).1
  have closed : ∀ id, id = "a" ∨ id = "b" → ∃ above,
      (axParentMaps [.under "a" "b", .under "b" "a"]).climb id = some above ∧
        (above = "a" ∨ above = "b") := by
    rintro id (rfl | rfl)
    · exact ⟨"b", by decide, .inr rfl⟩
    · exact ⟨"a", by decide, .inl rfl⟩
  exact measured.not_endless (endless_of_closed closed (.inl rfl))

end Daemon
