import SynthHiresBridge.Proof.Turns

namespace Daemon

open Posix Transition

namespace WsClient

/-- An action takes the lock of the parked actions to park its request. It waits for ever when its
own task holds the lock. -/
def handleActionLocked (client : WsClient) (host : Host) (moment : Moment)
    (request : ActionRequestFrame) (decision : Option ConsentAnswer) (held : Bool) :
    Option WsClient :=
  match client.refusal request with
  | some reason => some (client.sendError request.id reason)
  | none => match client.dispatch host moment request decision with
      | (client, .answered) => some client
      | (client, .awaitingConsent) => if held then none else some (client.park moment request)

/-- A delivery holds the lock of the parked actions until the action that it wakes has ended. -/
def resumeLocked (client : WsClient) (host : Host) (moment : Moment) : Option WsClient :=
  match client.consent.notifier with
  | [] => some client
  | decision :: rest =>
      let client := { client with consent := { client.consent with notifier := rest } }
      match client.parked.lookup decision.actionId with
      | none => some client
      | some action =>
          { client with parked := client.parked.erase decision.actionId }.handleActionLocked host
            moment action.frame (some decision.answer) true

/-- With the lock free an action is the one of the model without a lock. -/
theorem handleActionLocked_free (client : WsClient) (host : Host) (moment : Moment)
    (request : ActionRequestFrame) (decision : Option ConsentAnswer) :
    client.handleActionLocked host moment request decision false =
      some (client.handleAction host moment request decision) := by
  unfold handleActionLocked handleAction
  cases client.refusal request with
  | some reason => rfl
  | none =>
      cases client.dispatch host moment request decision with
      | mk after outcome => cases outcome <;> rfl

section

variable (client : WsClient) (host : Host) (moment : Moment) (request : ActionRequestFrame)
  (answer : ConsentAnswer)

/-- Only an arm without an answer parks. -/
theorem dispatch_decided : (client.dispatch host moment request (some answer)).2 = .answered := by
  have outcome := client.dispatch_case host moment request (some answer)
  generalize client.dispatch host moment request (some answer) = result at outcome ⊢
  cases outcome with
  | answered _ _ _ => rfl
  | remembered _ _ _ _ _ _ _ _ => rfl

theorem handleActionLocked_decided :
    client.handleActionLocked host moment request (some answer) true =
      some (client.handleAction host moment request (some answer)) := by
  have answered := client.dispatch_decided host moment request answer
  unfold handleActionLocked handleAction
  cases client.refusal request with
  | some reason => rfl
  | none =>
      cases ran : client.dispatch host moment request (some answer) with
      | mk after outcome =>
          rw [ran] at answered
          change outcome = .answered at answered
          subst answered
          rfl

theorem handleAction_decided_sent : ∃ frames result,
    (client.handleAction host moment request (some answer)).sent =
      client.sent ++ frames ++ [.actionResult result] ∧ result.id = request.id := by
  rcases client.handleAction_decided host moment request answer with
    answers | ⟨capability, path, -, -, -, answers⟩
  · obtain ⟨frames, result, sent, own, -⟩ := answers.sent
    exact ⟨frames, result, sent, own⟩
  · obtain ⟨frames, result, sent, own, -⟩ := answers.sent
    refine ⟨frames, result, ?_, own⟩
    rw [sent, remembered]
    split <;> rfl

end

/-- A delivery ends although it holds the lock of the parked actions. -/
theorem resumeLocked_eq (client : WsClient) (host : Host) (moment : Moment) :
    client.resumeLocked host moment = some (client.resume host moment) := by
  unfold resumeLocked resume
  cases client.consent.notifier with
  | nil => rfl
  | cons decision rest =>
      simp only
      cases client.parked.lookup decision.actionId with
      | none => rfl
      | some action => exact handleActionLocked_decided _ host moment action.frame decision.answer

/-- A resumed action answers with a result and never parks again, so the delivery that wakes it
never waits for the lock it holds. -/
theorem resumed_answered (client : WsClient) (host : Host) (moment : Moment) :
    (∀ request answer,
      (client.dispatch host moment request (some answer)).2 = .answered ∧
      (client.handleAction host moment request (some answer)).parked = client.parked ∧
      ∃ frames result, (client.handleAction host moment request (some answer)).sent =
        client.sent ++ frames ++ [.actionResult result] ∧ result.id = request.id) ∧
      client.resumeLocked host moment = some (client.resume host moment) := by
  refine ⟨fun request answer => ⟨?_, ?_, ?_⟩, client.resumeLocked_eq host moment⟩
  · exact client.dispatch_decided host moment request answer
  · exact (client.handleAction_decided_kept host moment request answer).2
  · exact client.handleAction_decided_sent host moment request answer

end WsClient

end Daemon
