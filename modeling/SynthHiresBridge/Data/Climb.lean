import Mathlib.Data.List.Basic

namespace Climb

variable {α : Type*}

/-- The ancestor that stands some steps above. -/
def ancestor (parent : α → Option α) (start : α) : Nat → Option α
  | 0 => some start
  | steps + 1 => (ancestor parent start steps).bind parent

/-- A chain of parents that has no end. -/
def Endless (parent : α → Option α) (start : α) : Prop :=
  ∀ steps, (ancestor parent start steps).isSome = true

/-- The number of parents above, where the chain ends. -/
inductive Depth (parent : α → Option α) : α → Nat → Prop where
  | root (start : α) (none : parent start = none) : Depth parent start 0
  | child (start above : α) (depth : Nat) (up : parent start = some above)
      (rest : Depth parent above depth) : Depth parent start (depth + 1)

theorem Depth.unique {parent : α → Option α} {start : α} {first second : Nat}
    (one : Depth parent start first) (two : Depth parent start second) : first = second := by
  induction one generalizing second with
  | root start none =>
      cases two with
      | root => rfl
      | child _ above depth up =>
          rw [none] at up
          cases up
  | child start above depth up _ ih =>
      cases two with
      | root _ none =>
          rw [none] at up
          cases up
      | child _ other more higher rest =>
          rw [up] at higher
          cases higher
          rw [ih rest]

theorem ancestor_succ (parent : α → Option α) (start : α) (steps : Nat) :
    ancestor parent start (steps + 1) =
      (parent start).bind fun above => ancestor parent above steps := by
  induction steps with
  | zero =>
      rw [ancestor, ancestor, Option.bind_some]
      cases parent start <;> rfl
  | succ steps ih =>
      rw [ancestor, ih]
      cases parent start <;> rfl

/-- A chain with a depth ends. -/
theorem Depth.not_endless {parent : α → Option α} {start : α} {depth : Nat}
    (measured : Depth parent start depth) : ¬Endless parent start := by
  induction measured with
  | root start none =>
      intro endless
      have one := endless 1
      rw [ancestor_succ, none] at one
      cases one
  | child start above depth up _ ih =>
      intro endless
      apply ih
      intro steps
      have next := endless (steps + 1)
      rwa [ancestor_succ, up, Option.bind_some] at next

/-- A chain that never leaves a set whose members have parents in it has no end. -/
theorem endless_of_closed {parent : α → Option α} {Inside : α → Prop}
    (closed : ∀ item, Inside item → ∃ above, parent item = some above ∧ Inside above) {start : α}
    (inside : Inside start) : Endless parent start := by
  have stays : ∀ steps, ∃ item, ancestor parent start steps = some item ∧ Inside item := by
    intro steps
    induction steps with
    | zero => exact ⟨start, rfl, inside⟩
    | succ steps ih =>
        obtain ⟨item, reached, within⟩ := ih
        obtain ⟨above, up, further⟩ := closed item within
        exact ⟨above, by rw [ancestor, reached, Option.bind_some, up], further⟩
  intro steps
  obtain ⟨item, reached, _⟩ := stays steps
  rw [reached]
  rfl

theorem depth_of_ancestor_none {parent : α → Option α} {start : α} {steps : Nat}
    (ends : ancestor parent start steps = none) : ∃ depth, Depth parent start depth := by
  induction steps generalizing start with
  | zero => cases ends
  | succ steps ih =>
      rw [ancestor_succ] at ends
      cases up : parent start with
      | none => exact ⟨0, .root start up⟩
      | some above =>
          rw [up, Option.bind_some] at ends
          obtain ⟨depth, measured⟩ := ih ends
          exact ⟨depth + 1, .child start above depth up measured⟩

/-- Each chain either ends or has no depth. -/
theorem endless_or_depth (parent : α → Option α) (start : α) :
    Endless parent start ∨ ∃ depth, Depth parent start depth := by
  by_cases endless : Endless parent start
  · exact .inl endless
  · right
    obtain ⟨steps, ends⟩ := not_forall.mp endless
    exact depth_of_ancestor_none (Option.isNone_iff_eq_none.mp (by simpa using ends))

end Climb
