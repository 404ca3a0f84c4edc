import SynthHiresBridge.Data.Suffix

namespace DrainedRing

variable {Item : Type*}

/-- An item arrives, and it may be lost on the way, or all that was collected is given out. -/
inductive Event (Item : Type*) where
  | arrive (item : Item) (taken : Bool)
  | drain

/-- What is collected, and the batches that were given out. -/
@[ext] structure State (Item : Type*) where
  ring : List Item
  drained : List (List Item)

def State.empty : State Item := ⟨[], []⟩

/-- An item that comes to a full ring takes the place of the oldest one. -/
def push (limit : Nat) (ring : List Item) (item : Item) : List Item :=
  (if ring.length ≥ limit then ring.drop 1 else ring) ++ [item]

def step (limit : Nat) (state : State Item) : Event Item → State Item
  | .arrive item taken => if taken then { state with ring := push limit state.ring item } else state
  | .drain => ⟨[], state.drained ++ [state.ring]⟩

def run (limit : Nat) (state : State Item) (events : List (Event Item)) : State Item :=
  events.foldl (step limit) state

/-- A log without a bound keeps every item that is taken. -/
def record (state : State Item) : Event Item → State Item
  | .arrive item taken => if taken then { state with ring := state.ring ++ [item] } else state
  | .drain => ⟨[], state.drained ++ [state.ring]⟩

def log (events : List (Event Item)) : State Item := events.foldl record .empty

def Event.item : Event Item → Option Item
  | .arrive item _ => some item
  | .drain => none

def Event.accepted : Event Item → Option Item
  | .arrive item taken => if taken then some item else none
  | .drain => none

/-- The last items up to a limit. -/
def last (limit : Nat) (items : List Item) : List Item := items.drop (items.length - limit)

@[simp] theorem last_nil (limit : Nat) : last limit ([] : List Item) = [] := List.drop_nil

theorem last_suffix (limit : Nat) (items : List Item) : last limit items <:+ items :=
  List.drop_suffix _ _

@[simp] theorem length_last (limit : Nat) (items : List Item) :
    (last limit items).length = min items.length limit := by
  rw [last, List.length_drop]
  omega

theorem last_eq_self_iff (limit : Nat) (items : List Item) :
    last limit items = items ↔ items.length ≤ limit := by
  constructor
  · intro same
    have short := length_last limit items
    rw [same] at short
    omega
  · intro short
    rw [last, Nat.sub_eq_zero_of_le short, List.drop_zero]

theorem push_last {limit : Nat} (positive : 1 ≤ limit) (items : List Item) (item : Item) :
    push limit (last limit items) item = last limit (items ++ [item]) := by
  rw [push, last, Suffix.drop_concat positive, last, List.length_append, List.length_singleton]

/-- The bounded view of a log. -/
def State.bounded (limit : Nat) (state : State Item) : State Item :=
  ⟨last limit state.ring, state.drained.map (last limit)⟩

theorem step_bounded {limit : Nat} (positive : 1 ≤ limit) (state : State Item)
    (event : Event Item) :
    step limit (state.bounded limit) event = (record state event).bounded limit := by
  cases event with
  | arrive item taken =>
      cases taken with
      | false => rfl
      | true =>
          apply State.ext
          · exact push_last positive state.ring item
          · rfl
  | drain => simp [step, record, State.bounded]

/-- A ring gives out the last items of each batch that the log would give out. -/
theorem run_eq_log {limit : Nat} (positive : 1 ≤ limit) (events : List (Event Item)) :
    run limit .empty events = (log events).bounded limit := by
  have runs : ∀ state : State Item, run limit (state.bounded limit) events =
      (events.foldl record state).bounded limit := by
    induction events with
    | nil => exact fun state => rfl
    | cons event rest ih =>
        intro state
        rw [run, List.foldl_cons, step_bounded positive]
        exact ih (record state event)
  simpa [State.bounded, State.empty, log] using runs .empty

/-- All batches of a log, the open one included. -/
def State.batches (state : State Item) : List (List Item) := state.drained ++ [state.ring]

def State.delivered (state : State Item) : List Item := state.batches.flatten

theorem delivered_eq (state : State Item) :
    state.delivered = state.drained.flatten ++ state.ring := by
  rw [State.delivered, State.batches, List.flatten_append]
  simp

theorem delivered_record (state : State Item) (event : Event Item) :
    (record state event).delivered = state.delivered ++ event.accepted.toList := by
  rw [delivered_eq, delivered_eq]
  cases event with
  | arrive item taken => cases taken <;> simp [record, Event.accepted]
  | drain => simp [record, Event.accepted]

/-- A log gives out the items that it took, once and in their order. -/
theorem delivered_log (events : List (Event Item)) :
    (log events).delivered = events.filterMap Event.accepted := by
  have runs : ∀ state : State Item, (events.foldl record state).delivered =
      state.delivered ++ events.filterMap Event.accepted := by
    induction events with
    | nil => simp
    | cons event rest ih =>
        intro state
        rw [List.foldl_cons, ih, delivered_record, List.filterMap_cons]
        cases event.accepted <;> simp
  simpa [State.delivered, State.batches, State.empty, log] using runs .empty

theorem batches_bounded (limit : Nat) (state : State Item) :
    (state.bounded limit).batches = state.batches.map (last limit) := by
  simp [State.batches, State.bounded]

theorem flatten_last_sublist (limit : Nat) (batches : List (List Item)) :
    (batches.map (last limit)).flatten.Sublist batches.flatten := by
  induction batches with
  | nil => exact .slnil
  | cons batch rest ih => exact (last_suffix limit batch).sublist.append ih

/-- Cut batches have all items exactly when no batch was cut. -/
theorem flatten_last_eq_iff (limit : Nat) (batches : List (List Item)) :
    (batches.map (last limit)).flatten = batches.flatten ↔
      ∀ batch ∈ batches, batch.length ≤ limit := by
  induction batches with
  | nil => simp
  | cons batch rest ih =>
      rw [List.forall_mem_cons, ← ih, ← last_eq_self_iff limit batch]
      constructor
      · intro same
        have sizes := congrArg List.length same
        have front := (last_suffix limit batch).sublist
        have back := flatten_last_sublist limit rest
        simp only [List.map_cons, List.flatten_cons, List.length_append] at sizes
        have short := front.length_le
        have less := back.length_le
        exact ⟨front.eq_of_length (by omega), back.eq_of_length (by omega)⟩
      · rintro ⟨front, back⟩
        rw [List.map_cons, List.flatten_cons, List.flatten_cons, front, back]

theorem accepted_sublist (events : List (Event Item)) :
    (events.filterMap Event.accepted).Sublist (events.filterMap Event.item) := by
  induction events with
  | nil => exact .slnil
  | cons event rest ih =>
      cases event with
      | arrive item taken =>
          cases taken with
          | false => exact ih.cons item
          | true => exact ih.cons_cons item
      | drain => exact ih

theorem accepted_eq_iff (events : List (Event Item)) :
    events.filterMap Event.accepted = events.filterMap Event.item ↔
      ∀ item, .arrive item false ∉ events := by
  induction events with
  | nil => simp
  | cons event rest ih =>
      cases event with
      | arrive item taken =>
          cases taken with
          | false =>
              refine iff_of_false (fun same => ?_) fun all => all item List.mem_cons_self
              have sizes := congrArg List.length same
              have less := (accepted_sublist rest).length_le
              simp only [List.filterMap_cons, Event.accepted, Event.item, List.length_cons] at sizes
              simp only [Bool.false_eq_true, if_false] at sizes
              omega
          | true => simp [Event.accepted, Event.item, ih]
      | drain => simpa [List.filterMap_cons, Event.accepted, Event.item] using ih

/-- A ring gives out no item twice and none out of order. -/
theorem delivered_sublist {limit : Nat} (positive : 1 ≤ limit) (events : List (Event Item)) :
    (run limit .empty events).delivered.Sublist (events.filterMap Event.item) := by
  rw [run_eq_log positive, State.delivered, batches_bounded]
  refine (flatten_last_sublist limit _).trans ?_
  rw [← State.delivered, delivered_log]
  exact accepted_sublist events

/-- A ring loses nothing exactly when every item is taken and no batch exceeds the limit. -/
theorem delivered_eq_iff {limit : Nat} (positive : 1 ≤ limit) (events : List (Event Item)) :
    (run limit .empty events).delivered = events.filterMap Event.item ↔
      (∀ item, .arrive item false ∉ events) ∧
        ∀ batch ∈ (log events).batches, batch.length ≤ limit := by
  rw [run_eq_log positive, State.delivered, batches_bounded, ← accepted_eq_iff,
    ← flatten_last_eq_iff]
  have cut := flatten_last_sublist limit (log events).batches
  have whole : (log events).batches.flatten = events.filterMap Event.accepted :=
    delivered_log events
  have part := accepted_sublist events
  constructor
  · intro same
    rw [same, whole] at cut
    have all := part.antisymm cut
    exact ⟨all, by rw [same, whole, all]⟩
  · rintro ⟨all, same⟩
    rw [same, whole, all]

end DrainedRing
