import Mathlib.Logic.Function.Basic
import SynthHiresBridge.Transition.Run

namespace Transition

/-- A ticket waits in the queue with the answer and with the request whose prompt was answered. -/
structure Ticket (Key Request : Type*) where
  key : Key
  approved : Bool
  raisedBy : Request

/-- Requests and their answers meet under a key: prompts wait for an answer, tickets wait for the
loop, and requests wait for their ticket. -/
structure Rendezvous (Key Request : Type*) where
  prompts : Key → Option Request
  queue : List (Ticket Key Request)
  waiting : Key → Option Request

namespace Rendezvous

variable {Key Request : Type*} [DecidableEq Key]

inductive Action (Key Request : Type*) where
  | park (key : Key) (request : Request)
  | ask (key : Key) (request : Request)
  | answer (key : Key) (approved : Bool)
  | deliver
  | drop (key : Key)

def empty : Rendezvous Key Request := ⟨fun _ => none, [], fun _ => none⟩

/-- An answer turns the prompt under its key into a ticket. -/
def answer (state : Rendezvous Key Request) (key : Key) (approved : Bool) :
    Rendezvous Key Request :=
  match state.prompts key with
  | none => state
  | some request =>
      { state with
        prompts := Function.update state.prompts key none
        queue := state.queue ++ [⟨key, approved, request⟩] }

def step (state : Rendezvous Key Request) : Action Key Request → Rendezvous Key Request
  | .park key request =>
      { state with
        prompts := Function.update state.prompts key (some request)
        waiting := Function.update state.waiting key (some request) }
  | .ask key request =>
      { state with prompts := Function.update state.prompts key (some request) }
  | .answer key approved => state.answer key approved
  | .deliver => match state.queue with
      | [] => state
      | ticket :: rest =>
          { state with queue := rest, waiting := Function.update state.waiting ticket.key none }
  | .drop key =>
      { state with waiting := Function.update state.waiting key none }.answer key false

/-- The ticket under a key that the loop takes first. -/
def first (state : Rendezvous Key Request) (key : Key) : Option (Ticket Key Request) :=
  state.queue.find? (·.key = key)

/-- An answer changes nothing without a prompt, and otherwise it moves the prompt to the end of the
queue. -/
theorem answer_cases (state : Rendezvous Key Request) (key : Key) (approved : Bool) :
    (state.prompts key = none ∧ state.answer key approved = state) ∨
      ∃ request, state.prompts key = some request ∧
        state.answer key approved =
          ⟨Function.update state.prompts key none, state.queue ++ [⟨key, approved, request⟩],
            state.waiting⟩ := by
  unfold answer
  cases held : state.prompts key with
  | none => exact .inl ⟨rfl, rfl⟩
  | some request => exact .inr ⟨request, rfl, rfl⟩

/-- A new ticket comes first only when its key has none. -/
theorem first_append (prompts waiting : Key → Option Request)
    (queue : List (Ticket Key Request)) (ticket : Ticket Key Request) (key : Key) :
    first ⟨prompts, queue ++ [ticket], waiting⟩ key =
      (queue.find? (·.key = key)).or (if ticket.key = key then some ticket else none) := by
  by_cases own : ticket.key = key <;> simp [first, List.find?_append, own]

/-- Taking the head of the queue keeps the first ticket of every other key. -/
theorem first_tail (state : Rendezvous Key Request) (ticket : Ticket Key Request)
    (rest : List (Ticket Key Request)) (taken : state.queue = ticket :: rest) (key : Key)
    (different : key ≠ ticket.key) : rest.find? (·.key = key) = state.first key := by
  rw [first, taken, List.find?_cons_of_neg (by simpa using Ne.symm different)]

@[simp] theorem answer_waiting (state : Rendezvous Key Request) (key : Key) (approved : Bool) :
    (state.answer key approved).waiting = state.waiting := by
  unfold answer
  split <;> rfl

/-- Only a parked request starts to wait. -/
theorem waiting_of_step (state : Rendezvous Key Request) (action : Action Key Request) (key : Key)
    (request : Request) (waits : (state.step action).waiting key = some request) :
    state.waiting key = some request ∨ action = .park key request := by
  cases action with
  | park other asked =>
      by_cases own : key = other
      · subst own
        simp only [step, Function.update_self, Option.some.injEq] at waits
        exact .inr (by rw [waits])
      · simp only [step, Function.update_of_ne own] at waits
        exact .inl waits
  | ask other asked => exact .inl waits
  | answer other approved => exact .inl (by simpa [step] using waits)
  | deliver =>
      unfold step at waits
      cases taken : state.queue with
      | nil => exact .inl (by simpa [taken] using waits)
      | cons ticket rest =>
          simp only [taken] at waits
          by_cases own : key = ticket.key
          · simp [own] at waits
          · exact .inl (by simpa [own] using waits)
  | drop other =>
      simp only [step, answer_waiting] at waits
      by_cases own : key = other
      · simp [own] at waits
      · exact .inl (by simpa [own] using waits)

/-- The ticket a waiting request would meet was raised by it if it is an approval, and without a
ticket the prompt under its key is its own. -/
def Bound (state : Rendezvous Key Request) : Prop :=
  ∀ key request, state.waiting key = some request →
    match state.first key with
    | some ticket => ticket.approved = true → ticket.raisedBy = request
    | none => ∀ asked, state.prompts key = some asked → asked = request

/-- An action binds when a parked request meets no approval of another request, and when a prompt
without a waiting request covers no prompt of a waiting one. -/
def Binds (state : Rendezvous Key Request) : Action Key Request → Prop
  | .park key request => ∀ ticket, state.first key = some ticket → ticket.approved = true →
      ticket.raisedBy = request
  | .ask key _ => (state.waiting key).isSome → (state.first key).isSome
  | _ => True

theorem Bound.empty : Bound (empty : Rendezvous Key Request) := by
  intro key request waits
  cases waits

theorem Bound.answer {state : Rendezvous Key Request} (bound : Bound state) (key : Key)
    (approved : Bool) : Bound (state.answer key approved) := by
  rcases state.answer_cases key approved with ⟨-, same⟩ | ⟨asked, prompted, same⟩
  · rw [same]
    exact bound
  · rw [same]
    intro other request waits
    have before := bound other request waits
    rw [first_append]
    unfold first at before
    cases held : state.queue.find? (·.key = other) with
    | some ticket =>
        rw [held] at before
        exact before
    | none =>
        rw [held] at before
        by_cases own : key = other
        · subst own
          simp only [Option.none_or, if_true]
          exact fun _ => before asked prompted
        · simp only [Option.none_or, own, if_false]
          rw [Function.update_of_ne (Ne.symm own)]
          exact before

theorem Bound.forget {state : Rendezvous Key Request} (bound : Bound state) (key : Key) :
    Bound { state with waiting := Function.update state.waiting key none } := by
  intro other request waits
  by_cases own : other = key
  · subst own
    simp at waits
  · simp only [Function.update_of_ne own] at waits
    exact bound other request waits

/-- Actions that bind keep waiting requests bound. -/
theorem Bound.step {state : Rendezvous Key Request} (bound : Bound state)
    (action : Action Key Request) (binds : Binds state action) : Bound (state.step action) := by
  cases action with
  | answer key approved => exact bound.answer key approved
  | drop key => exact (bound.forget key).answer key false
  | park key request =>
      intro other waiter waits
      by_cases own : other = key
      · subst own
        obtain rfl : request = waiter := by simpa [Rendezvous.step] using waits
        change match state.first other with | some ticket => _ | none => _
        cases met : state.first other with
        | some ticket => exact binds ticket met
        | none =>
            intro asked prompted
            simpa [Rendezvous.step] using prompted.symm
      · simp only [Rendezvous.step, Function.update_of_ne own] at waits ⊢
        exact bound other waiter waits
  | ask key request =>
      intro other waiter waits
      by_cases own : other = key
      · subst own
        have before := bound other waiter waits
        have met : (state.first other).isSome := binds (by
          rw [show state.waiting other = some waiter from waits]
          rfl)
        obtain ⟨ticket, met⟩ := Option.isSome_iff_exists.mp met
        rw [met] at before
        change match state.first other with | some ticket => _ | none => _
        rw [met]
        exact before
      · simp only [Rendezvous.step, Function.update_of_ne own] at waits ⊢
        exact bound other waiter waits
  | deliver =>
      unfold Rendezvous.step
      cases taken : state.queue with
      | nil => exact bound
      | cons ticket rest =>
          intro other request waits
          by_cases own : other = ticket.key
          · subst own
            simp at waits
          · simp only [Function.update_of_ne own] at waits ⊢
            have before := bound other request waits
            rw [← state.first_tail ticket rest taken other own] at before
            exact before

/-- A key is unused when nothing stands under it. -/
def Unused (state : Rendezvous Key Request) (key : Key) : Prop :=
  state.prompts key = none ∧ state.first key = none ∧ state.waiting key = none

/-- The keys of an action are the ones it may put something under. -/
def Action.key : Action Key Request → Option Key
  | .park key _ => some key
  | .ask key _ => some key
  | _ => none

/-- An answer puts nothing under a key without a prompt. -/
theorem Unused.answer {state : Rendezvous Key Request} {key : Key} (unused : Unused state key)
    (named : Key) (approved : Bool) : Unused (state.answer named approved) key := by
  rcases state.answer_cases named approved with ⟨-, same⟩ | ⟨asked, prompted, same⟩
  · rw [same]
    exact unused
  · have different : named ≠ key := by
      rintro rfl
      rw [unused.1] at prompted
      cases prompted
    have free := unused.2.1
    unfold first at free
    rw [same]
    refine ⟨?_, ?_, unused.2.2⟩
    · simp only [Function.update_of_ne (Ne.symm different)]
      exact unused.1
    · rw [first_append, free]
      simp [different]

/-- A key that no longer waits stays unused. -/
theorem Unused.forget {state : Rendezvous Key Request} {key : Key} (unused : Unused state key)
    (named : Key) : Unused { state with waiting := Function.update state.waiting named none } key := by
  refine ⟨unused.1, unused.2.1, ?_⟩
  by_cases own : key = named
  · simp [own]
  · simp only [Function.update_of_ne own]
    exact unused.2.2

/-- A key that no action names stays unused. -/
theorem Unused.step {state : Rendezvous Key Request} {key : Key} (unused : Unused state key)
    (action : Action Key Request) (other : action.key ≠ some key) :
    Unused (state.step action) key := by
  cases action with
  | answer named approved => exact unused.answer named approved
  | drop named => exact (unused.forget named).answer named false
  | park named request =>
      have different : key ≠ named := fun same => other (by rw [same]; rfl)
      refine ⟨?_, unused.2.1, ?_⟩
      · simp only [Rendezvous.step, Function.update_of_ne different]
        exact unused.1
      · simp only [Rendezvous.step, Function.update_of_ne different]
        exact unused.2.2
  | ask named request =>
      have different : key ≠ named := fun same => other (by rw [same]; rfl)
      refine ⟨?_, unused.2.1, unused.2.2⟩
      simp only [Rendezvous.step, Function.update_of_ne different]
      exact unused.1
  | deliver =>
      unfold Rendezvous.step
      cases taken : state.queue with
      | nil => exact unused
      | cons ticket rest =>
          have free := unused.2.1
          unfold first at free
          rw [taken] at free
          have rest_free : rest.find? (·.key = key) = none := by
            rw [List.find?_eq_none] at free ⊢
            exact fun later member => free later (List.mem_cons_of_mem _ member)
          exact ⟨unused.1, rest_free, (unused.forget ticket.key).2.2⟩

/-- Every prompt belongs to the waiting request under its key, and every waiting request has its
prompt on screen or its ticket in the queue. -/
structure Matched (state : Rendezvous Key Request) : Prop where
  prompted : ∀ key request, state.prompts key = some request →
    state.waiting key = some request ∧ state.first key = none
  awaited : ∀ key request, state.waiting key = some request →
    state.prompts key = some request ∨
      ∃ ticket, state.first key = some ticket ∧ ticket.raisedBy = request

/-- An action pairs a prompt with a waiting request under an unused key. -/
def Pairs (state : Rendezvous Key Request) : Action Key Request → Prop
  | .park key _ => state.Unused key
  | .ask _ _ => False
  | _ => True

theorem Matched.empty : Matched (empty : Rendezvous Key Request) :=
  ⟨fun _ _ prompted => (nomatch prompted), fun _ _ waits => (nomatch waits)⟩

/-- An answer keeps prompts and waiting requests matched, and a request that no longer waits needs
none. -/
theorem Matched.answer {state : Rendezvous Key Request} (matched : Matched state) (key : Key)
    (approved : Bool) (waiting : Key → Option Request)
    (others : ∀ other, other ≠ key → waiting other = state.waiting other)
    (own : waiting key = state.waiting key ∨ waiting key = none) :
    Matched (({ state with waiting := waiting } : Rendezvous Key Request).answer key approved) := by
  rcases Rendezvous.answer_cases { state with waiting := waiting } key approved with
    ⟨unasked, same⟩ | ⟨asked, prompted, same⟩
  · rw [same]
    constructor
    · intro other request prompts
      have different : other ≠ key := by
        rintro rfl
        rw [unasked] at prompts
        cases prompts
      have before := matched.prompted other request prompts
      exact ⟨(others other different).trans before.1, before.2⟩
    · intro other request waits
      by_cases same : other = key
      · subst same
        rcases own with kept | gone
        · exact matched.awaited other request (kept ▸ waits)
        · simp [gone] at waits
      · exact matched.awaited other request ((others other same) ▸ waits)
  · rw [same]
    have before := matched.prompted key asked prompted
    constructor
    · intro other request prompts
      have different : other ≠ key := by
        rintro rfl
        simp at prompts
      simp only [Function.update_of_ne different] at prompts
      obtain ⟨waits, unmet⟩ := matched.prompted other request prompts
      unfold first at unmet
      refine ⟨(others other different).trans waits, ?_⟩
      rw [first_append, unmet]
      simp [Ne.symm different]
    · intro other request waits
      by_cases same : other = key
      · subst same
        right
        rcases own with kept | gone
        · have held : state.waiting other = some request := kept ▸ waits
          obtain rfl : asked = request := Option.some.inj (before.1.symm.trans held)
          have unmet := before.2
          unfold first at unmet
          rw [first_append, unmet]
          exact ⟨⟨other, approved, asked⟩, by simp, rfl⟩
        · simp [gone] at waits
      · rcases matched.awaited other request ((others other same) ▸ waits) with
          prompts | ⟨ticket, met, raised⟩
        · left
          simp only [Function.update_of_ne same]
          exact prompts
        · right
          unfold first at met
          rw [first_append, met]
          exact ⟨ticket, rfl, raised⟩

/-- Actions that pair keep prompts and waiting requests matched. -/
theorem Matched.step {state : Rendezvous Key Request} (matched : Matched state)
    (action : Action Key Request) (pairs : Pairs state action) :
    Matched (state.step action) := by
  cases action with
  | answer key approved =>
      exact matched.answer key approved state.waiting (fun _ _ => rfl) (.inl rfl)
  | drop key =>
      exact matched.answer key false _ (fun other different => Function.update_of_ne different ..)
        (.inr (by simp))
  | ask key request => exact absurd pairs id
  | park key request =>
      constructor
      · intro other asked prompts
        by_cases own : other = key
        · subst own
          obtain rfl : request = asked := by simpa [Rendezvous.step] using prompts
          exact ⟨by simp [Rendezvous.step], pairs.2.1⟩
        · simp only [Rendezvous.step, Function.update_of_ne own] at prompts ⊢
          exact matched.prompted other asked prompts
      · intro other waiter waits
        by_cases own : other = key
        · subst own
          obtain rfl : request = waiter := by simpa [Rendezvous.step] using waits
          exact .inl (by simp [Rendezvous.step])
        · simp only [Rendezvous.step, Function.update_of_ne own] at waits ⊢
          exact matched.awaited other waiter waits
  | deliver =>
      unfold Rendezvous.step
      cases taken : state.queue with
      | nil => exact matched
      | cons ticket rest =>
          have tail := state.first_tail ticket rest taken
          constructor
          · intro other request prompts
            obtain ⟨waits, unmet⟩ := matched.prompted other request prompts
            have different : other ≠ ticket.key := by
              rintro rfl
              simp [first, taken] at unmet
            refine ⟨?_, (tail other different).trans unmet⟩
            simp only [Function.update_of_ne different]
            exact waits
          · intro other request waits
            have different : other ≠ ticket.key := by
              rintro rfl
              simp at waits
            simp only [Function.update_of_ne different] at waits
            rcases matched.awaited other request waits with prompts | ⟨met, found, raised⟩
            · exact .inl prompts
            · exact .inr ⟨met, (tail other different).trans found, raised⟩

/-- A waiting request with a refusal in the queue meets a refusal first, and one that would meet an
approval has no prompt of its own on screen. -/
structure RefusedFirst (state : Rendezvous Key Request) : Prop where
  refused : ∀ key request, state.waiting key = some request → ∀ ticket ∈ state.queue,
    ticket.key = key → ticket.approved = false → ticket.raisedBy = request →
      ∃ met, state.first key = some met ∧ met.approved = false
  spent : ∀ key request met, state.waiting key = some request → state.first key = some met →
    met.approved = true → state.prompts key ≠ some request

/-- An action settles when a parked request meets no approval and a prompt is never the one of the
waiting request. -/
def Settles (state : Rendezvous Key Request) : Action Key Request → Prop
  | .park key _ => ∀ ticket, state.first key = some ticket → ticket.approved = false
  | .ask key request => state.waiting key ≠ some request
  | _ => True

theorem RefusedFirst.empty : RefusedFirst (empty : Rendezvous Key Request) :=
  ⟨fun _ _ waits => (nomatch waits), fun _ _ _ waits => (nomatch waits)⟩

theorem RefusedFirst.answer {state : Rendezvous Key Request} (settled : RefusedFirst state)
    (key : Key) (approved : Bool) : RefusedFirst (state.answer key approved) := by
  rcases state.answer_cases key approved with ⟨-, same⟩ | ⟨asked, prompted, same⟩
  · rw [same]
    exact settled
  · rw [same]
    constructor
    · intro other request waits ticket member own refusal raised
      rw [first_append]
      cases met : state.queue.find? (·.key = other) with
      | some held =>
          refine ⟨held, rfl, ?_⟩
          rcases List.mem_append.mp member with earlier | new
          · obtain ⟨first, found, no⟩ :=
              settled.refused other request waits ticket earlier own refusal raised
            unfold Rendezvous.first at found
            obtain rfl : held = first := Option.some.inj (met.symm.trans found)
            exact no
          · -- The new ticket answers the prompt of the waiting request, so no approval is met.
            rw [List.mem_singleton] at new
            subst new
            obtain rfl : key = other := own
            obtain rfl : asked = request := raised
            by_contra yes
            exact settled.spent key asked held waits met (by simpa using yes) prompted
      | none =>
          have new : ticket = ⟨key, approved, asked⟩ := by
            rcases List.mem_append.mp member with earlier | new
            · rw [List.find?_eq_none] at met
              exact absurd own (by simpa using met ticket earlier)
            · simpa using new
          subst new
          obtain rfl : key = other := own
          exact ⟨⟨key, approved, asked⟩, by simp, refusal⟩
    · intro other request met waits found yes
      rw [first_append] at found
      by_cases own : other = key
      · subst own
        simp
      · simp only [Function.update_of_ne own]
        cases held : state.queue.find? (·.key = other) with
        | some ticket =>
            rw [held] at found
            exact settled.spent other request met waits (held.trans found) yes
        | none =>
            rw [held] at found
            simp [Ne.symm own] at found

theorem RefusedFirst.forget {state : Rendezvous Key Request} (settled : RefusedFirst state)
    (key : Key) : RefusedFirst { state with waiting := Function.update state.waiting key none } := by
  have waits_before : ∀ other request,
      Function.update state.waiting key none other = some request →
        state.waiting other = some request := by
    intro other request waits
    by_cases own : other = key
    · subst own
      simp at waits
    · rwa [Function.update_of_ne own] at waits
  exact ⟨fun other request waits => settled.refused other request (waits_before other request waits),
    fun other request met waits =>
      settled.spent other request met (waits_before other request waits)⟩

/-- Actions that settle keep refusals first. -/
theorem RefusedFirst.step {state : Rendezvous Key Request} (settled : RefusedFirst state)
    (action : Action Key Request) (settles : Settles state action) :
    RefusedFirst (state.step action) := by
  cases action with
  | answer key approved => exact settled.answer key approved
  | drop key => exact (settled.forget key).answer key false
  | park key request =>
      constructor
      · intro other waiter waits ticket member own refusal raised
        by_cases same : other = key
        · subst same
          have present : (state.queue.find? (·.key = other)).isSome := by
            rw [List.find?_isSome]
            exact ⟨ticket, member, by simpa using own⟩
          obtain ⟨met, found⟩ := Option.isSome_iff_exists.mp present
          exact ⟨met, found, settles met found⟩
        · simp only [Rendezvous.step, Function.update_of_ne same] at waits
          exact settled.refused other waiter waits ticket member own refusal raised
      · intro other waiter met waits found yes
        by_cases same : other = key
        · subst same
          have no := settles met found
          rw [yes] at no
          cases no
        · simp only [Rendezvous.step, Function.update_of_ne same] at waits ⊢
          exact settled.spent other waiter met waits found yes
  | ask key request =>
      constructor
      · exact settled.refused
      · intro other waiter met waits found yes
        by_cases same : other = key
        · subst same
          simp only [Rendezvous.step, Function.update_self]
          intro prompt
          exact settles (by rw [show state.waiting other = some waiter from waits, prompt])
        · simp only [Rendezvous.step, Function.update_of_ne same]
          exact settled.spent other waiter met waits found yes
  | deliver =>
      unfold Rendezvous.step
      cases taken : state.queue with
      | nil => exact settled
      | cons ticket rest =>
          have tail := state.first_tail ticket rest taken
          constructor
          · intro other request waits later member own refusal raised
            have different : other ≠ ticket.key := by
              rintro rfl
              simp at waits
            simp only [Function.update_of_ne different] at waits
            obtain ⟨met, found, no⟩ := settled.refused other request waits later
              (taken ▸ List.mem_cons_of_mem _ member) own refusal raised
            exact ⟨met, (tail other different).trans found, no⟩
          · intro other request met waits found yes
            have different : other ≠ ticket.key := by
              rintro rfl
              simp at waits
            simp only [Function.update_of_ne different] at waits
            exact settled.spent other request met waits ((tail other different).symm.trans found)
              yes

end Rendezvous

end Transition
