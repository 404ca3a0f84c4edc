import SynthHiresBridge.Proof.Turns

namespace Daemon

open Posix Transition

/-- A decision is a ticket of its action. -/
def Decision.ticket (decision : Decision) : Ticket String ActionRequestFrame :=
  ⟨decision.actionId, decision.answer.approved, decision.given.raisedBy⟩

namespace ConsentBroker

/-- The first decision that waits for an action. -/
def decided (broker : ConsentBroker) (actionId : String) : Option Decision :=
  broker.notifier.find? (·.actionId = actionId)

end ConsentBroker

namespace WsClient

/-- The prompts, the decisions and the parked actions of a client meet under their action ids. -/
def rendezvous (client : WsClient) : Rendezvous String ActionRequestFrame where
  prompts id := (client.consent.pending.lookup id).map PendingPrompt.raisedBy
  queue := client.consent.notifier.map Decision.ticket
  waiting id := (client.parked.lookup id).map ParkedAction.frame

theorem rendezvous_congr {first second : WsClient} (consent : first.consent = second.consent)
    (parked : first.parked = second.parked) : first.rendezvous = second.rendezvous := by
  rw [rendezvous, rendezvous, consent, parked]

theorem Idles.rendezvous {before after : WsClient} (idles : Idles before after) :
    after.rendezvous = before.rendezvous :=
  rendezvous_congr idles.consent idles.parked

/-- The first ticket of an action is the one of its first decision. -/
theorem rendezvous_first (client : WsClient) (id : String) :
    client.rendezvous.first id = (client.consent.decided id).map Decision.ticket := by
  simp only [rendezvous, Rendezvous.first, ConsentBroker.decided, List.find?_map]
  rfl

/-- The actions on the meeting that an input stands for. -/
def actions (client : WsClient) : Input → List (Rendezvous.Action String ActionRequestFrame)
  | .request _ request =>
      if (client.raises request).isSome then
        if Arm.ofCapability request.capability = .fsDelete then [.ask request.id request]
        else [.park request.id request]
      else []
  | .push _ _ => []
  | .answer actionId answer => [.answer actionId answer.approved]
  | .deliver _ => [.deliver]
  | .sweep moment => (client.expiredIds moment).map .drop
  | .scopes _ => []

theorem raisePrompt_rendezvous (client : WsClient) (request : ActionRequestFrame)
    (prompt : ConsentPrompt) (own : prompt.actionId = request.id) :
    (client.raisePrompt request prompt).rendezvous =
      client.rendezvous.step (.ask request.id request) := by
  unfold rendezvous Rendezvous.step raisePrompt send
  simp only [ConsentBroker.ask_notifier, Rendezvous.mk.injEq, and_true]
  funext id
  rw [ConsentBroker.ask_lookup, own, Function.update_apply]
  split <;> rfl

theorem park_rendezvous (client : WsClient) (moment : Moment) (request : ActionRequestFrame) :
    (client.park moment request).rendezvous =
      { client.rendezvous with
        waiting := Function.update client.rendezvous.waiting request.id (some request) } := by
  unfold rendezvous park
  simp only [Rendezvous.mk.injEq, true_and]
  funext id
  rw [Function.update_apply]
  by_cases same : id = request.id
  · subst same
    simp
  · simp [same]

theorem answer_rendezvous (client : WsClient) (id : String) (answer : ConsentAnswer) :
    ({ client with consent := client.consent.answer id answer } : WsClient).rendezvous =
      client.rendezvous.answer id answer.approved := by
  rcases client.consent.answer_eq id answer with ⟨unasked, same⟩ | ⟨given, asked, queued, screen⟩
  · rw [same]
    simp [Rendezvous.answer, rendezvous, unasked]
  · unfold rendezvous Rendezvous.answer
    simp only [asked, Option.map_some, queued, List.map_append, List.map_cons, List.map_nil,
      Rendezvous.mk.injEq, and_true]
    refine ⟨?_, rfl⟩
    funext other
    rw [screen, Function.update_apply]
    split <;> rfl

/-- The parked actions without one of them. -/
theorem erase_rendezvous (client : WsClient) (id : String) :
    ({ client with parked := client.parked.erase id } : WsClient).rendezvous =
      { client.rendezvous with
        waiting := Function.update client.rendezvous.waiting id none } := by
  unfold rendezvous
  simp only [Rendezvous.mk.injEq, true_and]
  funext other
  rw [Function.update_apply]
  by_cases same : other = id
  · subst same
    simp
  · simp [same]

theorem dropParked_rendezvous (client : WsClient) (id : String) :
    (client.dropParked id).rendezvous = client.rendezvous.step (.drop id) := by
  have dropped := answer_rendezvous { client with parked := client.parked.erase id } id
    ⟨false, false⟩
  rw [erase_rendezvous] at dropped
  exact dropped

/-- A delivery takes one ticket and wakes what waits for it. -/
theorem resume_rendezvous (client : WsClient) (host : Host) (moment : Moment) :
    (client.resume host moment).rendezvous = client.rendezvous.step .deliver := by
  unfold resume Rendezvous.step
  cases queue : client.consent.notifier with
  | nil => simp [rendezvous, queue]
  | cons decision rest =>
      have taken : client.rendezvous.queue = decision.ticket :: rest.map Decision.ticket := by
        simp [rendezvous, queue]
      simp only [taken]
      cases held : client.parked.lookup decision.actionId with
      | none =>
          unfold rendezvous
          simp only [Rendezvous.mk.injEq, true_and]
          have unset : (client.parked.lookup decision.ticket.key).map ParkedAction.frame = none := by
            rw [show decision.ticket.key = decision.actionId from rfl, held]
            rfl
          exact (Function.update_eq_self_iff.mpr unset.symm).symm
      | some action =>
          simp only
          have kept := handleAction_decided_kept
            { client with
              consent := { client.consent with notifier := rest }
              parked := client.parked.erase decision.actionId } host moment action.frame
            decision.answer
          rw [rendezvous_congr kept.1 kept.2, erase_rendezvous
            { client with consent := { client.consent with notifier := rest } } decision.actionId]
          rfl

/-- The client refines the meeting: an input acts on it as the actions it stands for. -/
theorem take_rendezvous (client : WsClient) (host : Host) (input : Input) :
    (client.take host input).rendezvous =
      run Rendezvous.step client.rendezvous (client.actions input) := by
  cases input with
  | request moment request =>
      simp only [take, actions]
      cases raised : client.raises request with
      | none =>
          have answers := client.handleAction_silent host moment request raised
          simpa using rendezvous_congr answers.consent answers.parked
      | some prompt =>
          have own : prompt.actionId = request.id := client.raises_actionId request prompt raised
          rw [client.handleAction_raised host moment request prompt raised]
          by_cases deletes : Arm.ofCapability request.capability = .fsDelete
          · simp only [deletes, if_true, Option.isSome_some, run_cons, run_nil]
            exact client.raisePrompt_rendezvous request prompt own
          · simp only [deletes, if_false, Option.isSome_some, if_true, run_cons, run_nil]
            rw [park_rendezvous, client.raisePrompt_rendezvous request prompt own]
            rfl
  | push moment request =>
      simp only [take, actions, run_nil]
      unfold handleChatPush
      split
      · rfl
      · split <;> rfl
  | answer actionId answer => exact client.answer_rendezvous actionId answer
  | deliver moment => exact client.resume_rendezvous host moment
  | scopes scopes => rfl
  | sweep moment =>
      simp only [take, actions, sweepExpiredParked]
      generalize client.expiredIds moment = ids
      induction ids generalizing client with
      | nil => rfl
      | cons id rest ih =>
          rw [List.foldl_cons, ih, dropParked_rendezvous]
          rfl

end WsClient

namespace Connection

/-- The actions on the meeting that an event stands for. -/
def actions (connection : Connection) (event : Event) :
    List (Rendezvous.Action String ActionRequestFrame) :=
  (connection.input event).elim [] connection.client.actions

/-- A step of the loop refines the meeting. -/
theorem step_rendezvous (connection : Connection) (host : Host) (event : Event) :
    (connection.step host event).client.rendezvous =
      run Rendezvous.step connection.client.rendezvous (connection.actions event) := by
  rw [(connection.step_idles host event).rendezvous, actions]
  cases connection.input event with
  | none => rfl
  | some input => exact connection.client.take_rendezvous host input

/-- An event acts on the meeting at most once, and a sweep drops actions only. -/
theorem actions_cases (connection : Connection) (event : Event) :
    connection.actions event = [] ∨ (∃ action, connection.actions event = [action]) ∨
      ∃ ids, connection.actions event = List.map .drop ids := by
  unfold actions
  cases connection.input event with
  | none => exact .inl rfl
  | some input =>
      cases input with
      | request _ request =>
          simp only [Option.elim_some, WsClient.actions]
          split
          · split <;> exact .inr (.inl ⟨_, rfl⟩)
          · exact .inl rfl
      | push _ _ => exact .inl rfl
      | answer _ _ => exact .inr (.inl ⟨_, rfl⟩)
      | deliver _ => exact .inr (.inl ⟨_, rfl⟩)
      | sweep moment => exact .inr (.inr ⟨_, rfl⟩)
      | scopes _ => exact .inl rfl

/-- A parked request has just raised its prompt, and it is no delete. -/
theorem actions_park (connection : Connection) (event : Event) (id : String)
    (request : ActionRequestFrame) (member : .park id request ∈ connection.actions event) :
    ∃ moment prompt, connection.input event = some (.request moment request) ∧ id = request.id ∧
      connection.client.raises request = some prompt ∧
      Arm.ofCapability request.capability ≠ .fsDelete := by
  unfold actions at member
  cases arrives : connection.input event with
  | none => simp [arrives] at member
  | some input =>
      cases input with
      | request moment asked =>
          simp only [arrives, Option.elim_some, WsClient.actions] at member
          cases raised : connection.client.raises asked with
          | none => simp [raised] at member
          | some prompt =>
              by_cases deletes : Arm.ofCapability asked.capability = .fsDelete
              · simp [raised, deletes] at member
              · simp only [raised, Option.isSome_some, if_true, deletes, if_false,
                  List.mem_singleton] at member
                obtain ⟨same, rfl⟩ := Rendezvous.Action.park.inj member
                exact ⟨moment, prompt, rfl, same, raised, deletes⟩
      | push _ _ => simp [arrives, WsClient.actions] at member
      | answer _ _ => simp [arrives, WsClient.actions] at member
      | deliver _ => simp [arrives, WsClient.actions] at member
      | sweep _ => simp [arrives, WsClient.actions] at member
      | scopes _ => simp [arrives, WsClient.actions] at member

/-- A prompt without a parked request is the one of a delete. -/
theorem actions_ask (connection : Connection) (event : Event) (id : String)
    (request : ActionRequestFrame) (member : .ask id request ∈ connection.actions event) :
    ∃ moment prompt, connection.input event = some (.request moment request) ∧ id = request.id ∧
      connection.client.raises request = some prompt ∧
      Arm.ofCapability request.capability = .fsDelete := by
  unfold actions at member
  cases arrives : connection.input event with
  | none => simp [arrives] at member
  | some input =>
      cases input with
      | request moment asked =>
          simp only [arrives, Option.elim_some, WsClient.actions] at member
          cases raised : connection.client.raises asked with
          | none => simp [raised] at member
          | some prompt =>
              by_cases deletes : Arm.ofCapability asked.capability = .fsDelete
              · simp only [raised, Option.isSome_some, if_true, deletes, List.mem_singleton] at member
                obtain ⟨same, rfl⟩ := Rendezvous.Action.ask.inj member
                exact ⟨moment, prompt, rfl, same, raised, deletes⟩
              · simp [raised, deletes] at member
      | push _ _ => simp [arrives, WsClient.actions] at member
      | answer _ _ => simp [arrives, WsClient.actions] at member
      | deliver _ => simp [arrives, WsClient.actions] at member
      | sweep _ => simp [arrives, WsClient.actions] at member
      | scopes _ => simp [arrives, WsClient.actions] at member

/-- Every action of an event on the meeting is permitted. -/
def Permits (good : Rendezvous String ActionRequestFrame →
    Rendezvous.Action String ActionRequestFrame → Prop) (connection : Connection)
    (event : Event) : Prop :=
  ∀ action ∈ connection.actions event, good connection.client.rendezvous action

/-- An event that brings no request is permitted when answers, deliveries and drops are. -/
theorem permits_of_quiet (good : Rendezvous String ActionRequestFrame →
      Rendezvous.Action String ActionRequestFrame → Prop)
    (answers : ∀ state id approved, good state (.answer id approved))
    (delivers : ∀ state, good state .deliver) (drops : ∀ state id, good state (.drop id))
    (connection : Connection) (event : Event)
    (quiet : ∀ moment request, connection.input event ≠ some (.request moment request)) :
    Permits good connection event := by
  intro action member
  cases action with
  | park id request =>
      obtain ⟨moment, -, arrives, -⟩ := connection.actions_park event id request member
      exact absurd arrives (quiet moment request)
  | ask id request =>
      obtain ⟨moment, -, arrives, -⟩ := connection.actions_ask event id request member
      exact absurd arrives (quiet moment request)
  | answer id approved => exact answers _ id approved
  | deliver => exact delivers _
  | drop id => exact drops _ id

section

variable (inv : Rendezvous String ActionRequestFrame → Prop)
  (good : Rendezvous String ActionRequestFrame →
    Rendezvous.Action String ActionRequestFrame → Prop)
  (preserved : ∀ state action, inv state → good state action → inv (state.step action))
  (drops : ∀ state id, good state (.drop id))

include preserved drops

/-- A permitted event preserves an invariant of the meeting. -/
theorem rendezvous_step (connection : Connection) (host : Host) (event : Event)
    (permitted : Permits good connection event) (holds : inv connection.client.rendezvous) :
    inv (connection.step host event).client.rendezvous := by
  rw [step_rendezvous]
  unfold Permits at permitted
  rcases connection.actions_cases event with none | ⟨action, one⟩ | ⟨ids, swept⟩
  · rw [none]
    exact holds
  · rw [one] at permitted ⊢
    exact preserved _ action holds (permitted action (List.mem_singleton_self action))
  · rw [swept]
    clear permitted swept
    generalize connection.client.rendezvous = state at holds
    induction ids generalizing state with
    | nil => exact holds
    | cons id rest ih => exact ih _ (preserved state _ holds (drops state id))

/-- Permitted events preserve an invariant of the meeting over a whole run. -/
theorem rendezvous_run (host : Host) (start : Connection) (events : List Event)
    (permitted : Along host start (Permits good) events) (holds : inv start.client.rendezvous) :
    inv (clientAfter host start events).rendezvous :=
  invariant (step host) start _ (fun _ connection => inv connection.client.rendezvous) holds
    (fun _ event holds permitted =>
      rendezvous_step inv good preserved drops _ host event permitted holds) events permitted

end

/-- What holds of every request when it is parked holds of every parked action. -/
theorem parked_run (holds : ActionRequestFrame → Prop) (host : Host) (start : Connection)
    (events : List Event) (empty : start.client.parked = ∅)
    (parks : Along host start (fun connection event => ∀ id request,
      .park id request ∈ connection.actions event → holds request) events)
    (id : String) (action : ParkedAction)
    (waits : (clientAfter host start events).parked.lookup id = some action) :
    holds action.frame := by
  have all := rendezvous_run
    (fun state => ∀ id request, state.waiting id = some request → holds request)
    (fun _ action => ∀ id request, action = .park id request → holds request)
    (fun state action before good id request later => by
      rcases state.waiting_of_step action id request later with earlier | parks
      · exact before id request earlier
      · exact good id request parks)
    (fun _ _ _ _ same => by cases same) host start events
    (fun before event after split action member id request same =>
      parks before event after split id request (same ▸ member))
    (fun id request waits => by simp [WsClient.rendezvous, empty] at waits)
  exact all id action.frame (by simp [WsClient.rendezvous, waits])

end Connection

end Daemon
