import Mathlib.Data.List.Induction

namespace Transition

variable {State Event Note : Type*}

/-- A run takes a step for each event in turn. -/
def run (step : State → Event → State) (state : State) (events : List Event) : State :=
  events.foldl step state

@[simp] theorem run_nil (step : State → Event → State) (state : State) :
    run step state [] = state := rfl

@[simp] theorem run_cons (step : State → Event → State) (state : State) (event : Event)
    (rest : List Event) : run step state (event :: rest) = run step (step state event) rest := rfl

theorem run_concat (step : State → Event → State) (state : State) (events : List Event)
    (event : Event) : run step state (events ++ [event]) = step (run step state events) event := by
  simp [run]

theorem run_append (step : State → Event → State) (state : State) (before after : List Event) :
    run step state (before ++ after) = run step (run step state before) after := by
  simp [run]

/-- A run that stops early stops in its first part or goes on to its second one. -/
theorem append_prefix_cases {before after done : List Event} (short : done <+: before ++ after) :
    done <+: before ∨ ∃ more, done = before ++ more ∧ more <+: after := by
  rcases List.prefix_or_prefix_of_prefix short (List.prefix_append before after) with front | ⟨more, rfl⟩
  · exact .inl front
  · exact .inr ⟨more, rfl, (List.prefix_append_right_inj before).mp short⟩

/-- A run collects what an observer sees at each step. -/
def collect (step : State → Event → State) (observe : State → Event → List Note) (state : State) :
    List Event → List Note
  | [] => []
  | event :: rest => observe state event ++ collect step observe (step state event) rest

theorem collect_append (step : State → Event → State) (observe : State → Event → List Note)
    (state : State) (before after : List Event) :
    collect step observe state (before ++ after) =
      collect step observe state before ++ collect step observe (run step state before) after := by
  induction before generalizing state with
  | nil => rfl
  | cons first rest ih => simp [collect, ih]

theorem collect_concat (step : State → Event → State) (observe : State → Event → List Note)
    (state : State) (events : List Event) (event : Event) :
    collect step observe state (events ++ [event]) =
      collect step observe state events ++ observe (run step state events) event := by
  simp [collect_append, collect]

/-- A run keeps a note that each step updates from the state before it. -/
def annotate (step : State → Event → State) (update : State → Note → Event → Note) (state : State)
    (note : Note) : List Event → Note
  | [] => note
  | event :: rest => annotate step update (step state event) (update state note event) rest

theorem annotate_concat (step : State → Event → State) (update : State → Note → Event → Note)
    (state : State) (note : Note) (events : List Event) (event : Event) :
    annotate step update state note (events ++ [event]) =
      update (run step state events) (annotate step update state note events) event := by
  induction events generalizing state note with
  | nil => rfl
  | cons first rest ih => exact ih (step state first) (update state note first)

/-- A condition on the events so far and the next one holds at every step of a run. -/
def Throughout (holds : List Event → Event → Prop) (events : List Event) : Prop :=
  ∀ before event after, events = before ++ event :: after → holds before event

theorem Throughout.nil (holds : List Event → Event → Prop) : Throughout holds [] := by
  intro before event after same
  simp at same

theorem Throughout.cons {holds : List Event → Event → Prop} {first : Event} {rest : List Event}
    (now : holds [] first) (later : Throughout (fun before => holds (first :: before)) rest) :
    Throughout holds (first :: rest) := by
  intro before event after same
  cases before with
  | nil =>
      obtain ⟨rfl, -⟩ := List.cons.inj same
      exact now
  | cons head tail =>
      rw [List.cons_append] at same
      obtain ⟨rfl, split⟩ := List.cons.inj same
      exact later tail event after split

theorem Throughout.front {holds : List Event → Event → Prop} {events : List Event} {event : Event}
    (all : Throughout holds (events ++ [event])) : Throughout holds events := by
  intro before other after same
  exact all before other (after ++ [event]) (by simp [same])

theorem Throughout.last {holds : List Event → Event → Prop} {events : List Event} {event : Event}
    (all : Throughout holds (events ++ [event])) : holds events event :=
  all events event [] rfl

theorem Throughout.concat_iff {holds : List Event → Event → Prop} {events : List Event}
    {event : Event} :
    Throughout holds (events ++ [event]) ↔ Throughout holds events ∧ holds events event := by
  refine ⟨fun all => ⟨all.front, all.last⟩, ?_⟩
  rintro ⟨all, last⟩ before other after same
  induction after using List.reverseRecOn with
  | nil =>
      obtain ⟨rfl, one⟩ := List.append_inj' same rfl
      obtain ⟨rfl, -⟩ := List.cons.inj one
      exact last
  | append_singleton more final _ =>
      have parts : events ++ [event] = (before ++ other :: more) ++ [final] := by
        rw [same, List.append_assoc, List.cons_append]
      exact all before other more (List.append_inj' parts rfl).1

theorem Throughout.initial {holds : List Event → Event → Prop} {before after : List Event}
    (all : Throughout holds (before ++ after)) : Throughout holds before := by
  intro front event rest same
  exact all front event (rest ++ after) (by simp [same])

/-- An invariant that every permitted step preserves holds after the whole run. -/
theorem invariant (step : State → Event → State) (state : State)
    (holds : List Event → Event → Prop) (inv : List Event → State → Prop) (base : inv [] state)
    (preserved : ∀ before event, inv before (run step state before) → holds before event →
      inv (before ++ [event]) (step (run step state before) event))
    (events : List Event) (all : Throughout holds events) : inv events (run step state events) := by
  induction events using List.reverseRecOn with
  | nil => exact base
  | append_singleton events event ih =>
      rw [run_concat]
      exact preserved events event (ih all.front) all.last

/-- Where a condition decides each step from the invariant, it decides every step of a run. -/
theorem Throughout.iff_of_step {step : State → Event → State} {state : State} (inv : State → Prop)
    (good condition : State → Event → Prop) (base : inv state)
    (decides : ∀ state event, inv state → (good state event ↔ condition state event))
    (keeps : ∀ state event, inv state → condition state event → inv (step state event))
    (events : List Event) :
    Throughout (fun before event => good (run step state before) event) events ↔
      Throughout (fun before event => condition (run step state before) event) events := by
  induction events using List.reverseRecOn with
  | nil => exact iff_of_true (.nil _) (.nil _)
  | append_singleton events event ih =>
      rw [Throughout.concat_iff, Throughout.concat_iff, ih]
      apply and_congr_right
      intro met
      apply decides
      exact invariant step state (fun before event => condition (run step state before) event)
        (fun _ state => inv state) base
        (fun before event held now => keeps (run step state before) event held now) events met

end Transition
