import SynthHiresBridge.Proof.Refinement

namespace Daemon

open Posix Transition

/-- Only a restore and the arms behind the path gate can wait for the owner. -/
def Askable (request : ActionRequestFrame) : Prop :=
  Arm.ofCapability request.capability = .fsRestore ∨
    (gateTarget request).isSome ∧ Arm.ofCapability request.capability ≠ .fsDelete

namespace WsClient

/-- The gate itself authorises a request when it has the grant of a restore or when the target lies
in its scope. -/
def authorises (client : WsClient) (request : ActionRequestFrame) : Bool :=
  if Arm.ofCapability request.capability = .fsRestore then client.gate.allows "desktop.fs.restore"
  else (gateTarget request).any fun target =>
    client.gate.checkPathReal client.fs target.1 (.ofText target.2) = .allow

/-- The path gate stops a refused action outside its scope. -/
theorem pathGate_refused (client : WsClient) (request : ActionRequestFrame)
    (capability path : String) (answer : ConsentAnswer) (no : answer.approved = false)
    (outside : client.gate.checkPathReal client.fs capability (.ofText path) ≠ .allow) :
    ∃ error, error ≠ .awaitingConsent ∧
      client.pathGate request capability path (some answer) = (.error error, client) := by
  have outcome := client.pathGate_case request capability path (some answer)
  generalize client.pathGate request capability path (some answer) = result at outcome
  cases outcome with
  | missing _ _ => exact ⟨_, by simp, rfl⟩
  | allowed _ granted => exact absurd granted outside
  | approved _ _ _ yes =>
      rw [no] at yes
      cases yes
  | refused _ _ _ _ => exact ⟨_, by simp, rfl⟩

/-- A refused action that the gate does not authorise is answered with an error. -/
theorem handleAction_refused (client : WsClient) (host : Host) (moment : Moment)
    (request : ActionRequestFrame) (answer : ConsentAnswer) (askable : Askable request)
    (no : answer.approved = false) (unauthorised : client.authorises request = false) :
    ∃ reason, client.handleAction host moment request (some answer) =
      client.sendError request.id reason := by
  unfold handleAction
  cases refused : client.refusal request with
  | some reason => exact ⟨reason, rfl⟩
  | none =>
      simp only
      rcases askable with restore | ⟨target, kept⟩
      · have outcome := client.restoreArm_case host moment request (some answer)
        simp only [dispatch, restore]
        generalize client.restoreArm host moment request (some answer) = result at outcome
        cases outcome with
        | rejected _ reason => exact ⟨reason, rfl⟩
        | restored _ store entry authorised =>
            rw [authorises, if_pos restore] at unauthorised
            rcases authorised with granted | ⟨given, same, yes⟩
            · rw [unauthorised] at granted
              cases granted
            · cases same
              rw [no] at yes
              cases yes
      · obtain ⟨⟨capability, path⟩, target⟩ := Option.isSome_iff_exists.mp target
        have outside : client.gate.checkPathReal client.fs capability (.ofText path) ≠ .allow := by
          intro allowed
          have other : Arm.ofCapability request.capability ≠ .fsRestore := by
            intro restore
            simp [gateTarget, restore] at target
          simp [authorises, other, target, allowed] at unauthorised
        obtain ⟨error, different, stopped⟩ :=
          client.pathGate_refused request capability path answer no outside
        rw [client.dispatch_stopped host moment request _ capability path error client target stopped,
          if_neg (fun both => different both.1)]
        exact ⟨error.text, rfl⟩

/-- A request that raises a prompt can wait for the owner unless it is a delete. -/
theorem raises_askable (client : WsClient) (request : ActionRequestFrame) (prompt : ConsentPrompt)
    (raised : client.raises request = some prompt)
    (kept : Arm.ofCapability request.capability ≠ .fsDelete) : Askable request := by
  unfold raises at raised
  split at raised
  · cases raised
  · split at raised
    · rename_i restore
      exact .inl restore
    · split at raised
      · cases raised
      · rename_i target
        exact .inr ⟨by simp [target], kept⟩

end WsClient

namespace Connection

/-- Every parked action can wait for the owner. -/
theorem parked_askable (host : Host) (gate : CapabilityGate) (checkpoints : Option CheckpointStore)
    (fs : FileSystem) (heartbeatIntervalMs : Nat) (events : List Event) (id : String)
    (action : ParkedAction) (waits : (clientAfter host
      (start gate checkpoints fs heartbeatIntervalMs) events).parked.lookup id = some action) :
    Askable action.frame := by
  refine parked_run Askable host (start gate checkpoints fs heartbeatIntervalMs) events rfl
    (fun before event after _ id request member => ?_) id action waits
  obtain ⟨moment, prompt, -, -, raised, kept⟩ := actions_park _ event id request member
  exact WsClient.raises_askable _ request prompt raised kept

/-- No request is parked under an approval. -/
def ParksUnapproved (connection : Connection) (event : Event) : Prop :=
  ∀ id request, Rendezvous.Action.park id request ∈ connection.actions event →
    ∀ decision, connection.client.consent.decided id = some decision →
      decision.answer.approved = false

/-- A refusal that is delivered meets no action that the gate authorises by itself. -/
def RefusalStands (connection : Connection) (event : Event) : Prop :=
  ∀ moment decision rest action, connection.input event = some (.deliver moment) →
    connection.client.consent.notifier = decision :: rest →
    connection.client.parked.lookup decision.actionId = some action →
    decision.answer.approved = false → connection.client.authorises action.frame = false

/-- Requests parked without an approval settle, and the prompt of a delete is never the one of a
waiting action. -/
theorem permits_settles (host : Host) (gate : CapabilityGate)
    (checkpoints : Option CheckpointStore) (fs : FileSystem) (heartbeatIntervalMs : Nat)
    (events : List Event)
    (unapproved : Along host (start gate checkpoints fs heartbeatIntervalMs) ParksUnapproved
      events) :
    Along host (start gate checkpoints fs heartbeatIntervalMs) (Permits Rendezvous.Settles)
      events := by
  intro before event after same action member
  have parks : ParksUnapproved (run (step host) (start gate checkpoints fs heartbeatIntervalMs)
      before) event := unapproved before event after same
  cases action with
  | park id request =>
      intro ticket met
      rw [WsClient.rendezvous_first, Option.map_eq_some_iff] at met
      obtain ⟨decision, decided, rfl⟩ := met
      exact parks id request member decision decided
  | ask id request =>
      intro waits
      simp only [WsClient.rendezvous, Option.map_eq_some_iff] at waits
      obtain ⟨action, waits, rfl⟩ := waits
      obtain ⟨-, -, -, -, -, deletes⟩ := actions_ask _ event id action.frame member
      rcases parked_askable host gate checkpoints fs heartbeatIntervalMs before id action waits with
        restore | ⟨-, kept⟩
      · rw [deletes] at restore
        cases restore
      · exact kept deletes
  | answer id approved => trivial
  | deliver => trivial
  | drop id => trivial

/-- A refused action is not executed, in every run in which no request is parked under an approval
and no refusal meets an action that the gate authorises by itself: a refusal comes first among the
decisions of its action, and its delivery sends one error and leaves the disk, the checkpoints and
the gate alone. -/
theorem refusal_final (host : Host) (gate : CapabilityGate) (checkpoints : Option CheckpointStore)
    (fs : FileSystem) (heartbeatIntervalMs : Nat) (events : List Event) (moment : Moment)
    (unapproved : Along host (start gate checkpoints fs heartbeatIntervalMs) ParksUnapproved
      (events ++ [.deliver moment]))
    (stands : Along host (start gate checkpoints fs heartbeatIntervalMs) RefusalStands
      (events ++ [.deliver moment]))
    (live : (run (step host) (start gate checkpoints fs heartbeatIntervalMs) events).live = true)
    (action : ParkedAction) (decision : Decision)
    (waits : (clientAfter host (start gate checkpoints fs heartbeatIntervalMs)
      events).parked.lookup decision.actionId = some action)
    (refused : decision.answer.approved = false) :
    (decision ∈ (clientAfter host (start gate checkpoints fs heartbeatIntervalMs)
        events).consent.notifier → decision.given.raisedBy = action.frame →
      ∃ met, (clientAfter host (start gate checkpoints fs heartbeatIntervalMs)
        events).consent.decided decision.actionId = some met ∧ met.answer.approved = false) ∧
    ∀ rest, (clientAfter host (start gate checkpoints fs heartbeatIntervalMs)
        events).consent.notifier = decision :: rest →
      ∃ reason, (clientAfter host (start gate checkpoints fs heartbeatIntervalMs)
          (events ++ [.deliver moment])) =
        ({ clientAfter host (start gate checkpoints fs heartbeatIntervalMs) events with
            consent := ⟨(clientAfter host (start gate checkpoints fs heartbeatIntervalMs)
              events).consent.pending, rest⟩
            parked := (clientAfter host (start gate checkpoints fs heartbeatIntervalMs)
              events).parked.erase decision.actionId } : WsClient).sendError action.frame.id
          reason := by
  constructor
  · intro member own
    have settled := rendezvous_run Rendezvous.RefusedFirst Rendezvous.Settles
      (fun _ action settled settles => settled.step action settles) (fun _ _ => trivial) host
      (start gate checkpoints fs heartbeatIntervalMs) events
      (permits_settles host gate checkpoints fs heartbeatIntervalMs events unapproved.front) .empty
    obtain ⟨ticket, met, no⟩ := settled.refused decision.actionId action.frame
      (by simp [WsClient.rendezvous, waits]) decision.ticket
      (List.mem_map_of_mem member) rfl refused own
    rw [WsClient.rendezvous_first, Option.map_eq_some_iff] at met
    obtain ⟨first, decided, rfl⟩ := met
    exact ⟨first, decided, no⟩
  · intro rest queued
    have unauthorised : (clientAfter host (start gate checkpoints fs heartbeatIntervalMs)
        events).authorises action.frame = false :=
      stands.last moment decision rest action (by simp [input, live]) queued waits refused
    have askable := parked_askable host gate checkpoints fs heartbeatIntervalMs events _ action waits
    rw [clientAfter, run_concat]
    simp only [step, live, if_true]
    unfold clientAfter at queued waits unauthorised
    simp only [WsClient.resume, queued, waits]
    exact WsClient.handleAction_refused _ host moment action.frame decision.answer askable refused
      unauthorised

/-- The owner refuses the read. -/
def refusedRead : List Event :=
  [.frame (.quiet 1) (.actionRequest askedRead),
    .frame (.quiet 2) (.consentResponse ⟨1, "1", false, false⟩)]

/-- An event that brings no request parks none. -/
theorem quiet_unapproved (connection : Connection) (event : Event)
    (quiet : ∀ moment request, connection.input event ≠ some (.request moment request)) :
    ParksUnapproved connection event := by
  intro id request member
  obtain ⟨moment, -, arrives, -⟩ := connection.actions_park event id request member
  exact absurd arrives (quiet moment request)

theorem refusedRead_conditions :
    Along .quiet askedStart ParksUnapproved (refusedRead ++ [.deliver (.quiet 3)]) ∧
      Along .quiet askedStart RefusalStands (refusedRead ++ [.deliver (.quiet 3)]) := by
  constructor
  · refine .cons ?_ (.cons ?_ (.cons ?_ (.nil _)))
    · exact fun _ _ _ _ decided => by cases decided
    · exact quiet_unapproved _ _ (by simp)
    · exact quiet_unapproved _ _ (by simp)
  · refine .cons ?_ (.cons ?_ (.cons ?_ (.nil _)))
    · exact fun moment decision rest action arrives => by simp at arrives
    · exact fun moment decision rest action arrives => by simp at arrives
    · intro moment decision rest action _ queued waits _
      have state : (clientAfter .quiet askedStart refusedRead).consent.notifier.all (fun decision =>
          ((clientAfter .quiet askedStart refusedRead).parked.lookup decision.actionId).all
            fun action => !(clientAfter .quiet askedStart refusedRead).authorises action.frame) =
          true := by
        decide +kernel
      rw [List.all_eq_true] at state
      have unauthorised := state decision (by
        rw [show (clientAfter .quiet askedStart refusedRead).consent.notifier = decision :: rest
          from queued]
        exact List.mem_cons_self ..)
      rw [show (clientAfter .quiet askedStart refusedRead).parked.lookup decision.actionId =
        some action from waits] at unauthorised
      exact Bool.not_eq_true' _ ▸ unauthorised

/-- The delivery of the refusal leaves the disk and the gate alone. -/
theorem refusal_final_read :
    (clientAfter .quiet askedStart (refusedRead ++ [.deliver (.quiet 3)])).fs =
        (clientAfter .quiet askedStart refusedRead).fs ∧
      (clientAfter .quiet askedStart (refusedRead ++ [.deliver (.quiet 3)])).gate =
        (clientAfter .quiet askedStart refusedRead).gate := by
  have state : (clientAfter .quiet askedStart refusedRead).consent.notifier.map (fun decision =>
        (decision.actionId, decision.answer.approved)) = [("1", false)] ∧
      ((clientAfter .quiet askedStart refusedRead).parked.lookup "1").isSome = true := by
    decide +kernel
  obtain ⟨queued, parked⟩ := state
  obtain ⟨action, waits⟩ := Option.isSome_iff_exists.mp parked
  obtain ⟨decision, held, same⟩ := List.map_eq_singleton_iff.mp queued
  obtain ⟨own, no⟩ := Prod.mk.inj same
  obtain ⟨unapproved, stands⟩ := refusedRead_conditions
  obtain ⟨reason, after⟩ := (refusal_final .quiet _ none .empty 30000 refusedRead (.quiet 3)
    unapproved stands (by decide +kernel) action decision (own ▸ waits) no).2 [] held
  have disk := congrArg WsClient.fs after
  have scope := congrArg WsClient.gate after
  exact ⟨disk, scope⟩

/-- The gate is widened while the write waits, and the owner refuses the write. -/
def refusedWrite : List Event :=
  [.frame (.quiet 1) (.actionRequest unseenWrite),
    .frame (.quiet 2) (.scopeUpdate ⟨["desktop.fs.write"], ["/etc"]⟩),
    .frame (.quiet 3) (.consentResponse ⟨1, "1", false, false⟩)]

def etcOnly : FileSystem := FileSystem.empty.put ["etc"] .dir

/-- The refused write is executed when the gate was widened in between. -/
theorem refusal_ignored :
    ¬ ∀ (host : Host) (gate : CapabilityGate) (checkpoints : Option CheckpointStore)
      (fs : FileSystem) (heartbeatIntervalMs : Nat) (events : List Event) (moment : Moment)
      (action : ParkedAction) (decision : Decision) (rest : List Decision),
      (run (step host) (start gate checkpoints fs heartbeatIntervalMs) events).live = true →
      (clientAfter host (start gate checkpoints fs heartbeatIntervalMs)
        events).consent.notifier = decision :: rest →
      (clientAfter host (start gate checkpoints fs heartbeatIntervalMs)
        events).parked.lookup decision.actionId = some action →
      decision.answer.approved = false →
      ∀ location, (clientAfter host (start gate checkpoints fs heartbeatIntervalMs)
          (events ++ [.deliver moment])).fs.lookup location =
        (clientAfter host (start gate checkpoints fs heartbeatIntervalMs)
          events).fs.lookup location := by
  intro claim
  have state : (clientAfter .quiet (start (.ofScopes ⟨["desktop.fs.write"], ["/w"]⟩) none etcOnly
        30000) refusedWrite).consent.notifier.map (fun decision =>
        (decision.actionId, decision.answer.approved)) = [("1", false)] ∧
      ((clientAfter .quiet (start (.ofScopes ⟨["desktop.fs.write"], ["/w"]⟩) none etcOnly
        30000) refusedWrite).parked.lookup "1").isSome = true := by
    decide +kernel
  obtain ⟨queued, parked⟩ := state
  obtain ⟨action, waits⟩ := Option.isSome_iff_exists.mp parked
  obtain ⟨decision, held, same⟩ := List.map_eq_singleton_iff.mp queued
  obtain ⟨own, no⟩ := Prod.mk.inj same
  have kept := claim .quiet _ none etcOnly 30000 refusedWrite (.quiet 4) action decision []
    (by decide +kernel) held (own ▸ waits) no ["etc", "b"]
  exact absurd kept (by decide +kernel)

end Connection

end Daemon
