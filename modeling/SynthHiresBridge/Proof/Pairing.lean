import SynthHiresBridge.Proof.Results

namespace Daemon

open Posix Transition

namespace Connection

/-- An event asks for no delete when the delete it may bring needs no prompt. -/
def AsksNoDelete (connection : Connection) (event : Event) : Prop :=
  ∀ moment request, connection.input event = some (.request moment request) →
    Arm.ofCapability request.capability = .fsDelete → connection.client.raises request = none

/-- The ids of a run stay distinct up to any of its events. -/
theorem distinct_before (host : Host) (start : Connection) (before : List Event) (event : Event)
    (after : List Event) (distinct : (receivedIds host start (before ++ event :: after)).Nodup) :
    (receivedIds host start (before ++ [event])).Nodup := by
  rw [List.append_cons, receivedIds, collect_append] at distinct
  exact distinct.of_append_left

/-- A run of distinct ids that asks for no delete pairs each prompt with a parked action. -/
theorem permits_pairs (host : Host) (gate : CapabilityGate) (checkpoints : Option CheckpointStore)
    (fs : FileSystem) (heartbeatIntervalMs : Nat) (events : List Event)
    (distinct : (receivedIds host (start gate checkpoints fs heartbeatIntervalMs) events).Nodup)
    (spared : Along host (start gate checkpoints fs heartbeatIntervalMs) AsksNoDelete events) :
    Along host (start gate checkpoints fs heartbeatIntervalMs) (Permits Rendezvous.Pairs)
      events := by
  intro before event after same action member
  subst same
  have now := distinct_before host _ before event after distinct
  have fresh := fresh_of_nodup host _ before event now
  have earlier : (receivedIds host (start gate checkpoints fs heartbeatIntervalMs) before).Nodup := by
    rw [receivedIds, collect_append] at now
    exact now.of_append_left
  have kept := kept_run host gate checkpoints fs heartbeatIntervalMs before earlier
  have asks : AsksNoDelete (run (step host) (start gate checkpoints fs heartbeatIntervalMs) before)
      event := spared before event after rfl
  cases action with
  | park id request =>
      obtain ⟨moment, prompt, arrives, rfl, -, -⟩ := actions_park _ event id request member
      exact (kept.unseen request.id (fresh request (by simp [arrives, Input.requested]))).2
  | ask id request =>
      obtain ⟨moment, prompt, arrives, -, raised, deletes⟩ := actions_ask _ event id request member
      rw [asks moment request arrives deletes] at raised
      cases raised
  | answer _ _ => trivial
  | deliver => trivial
  | drop _ => trivial

/-- In a run of distinct ids that asks for no delete, every prompt on screen belongs to the
unanswered action parked under its id, and every parked action has its prompt on screen or its
decision in the queue. -/
theorem prompt_parked (host : Host) (gate : CapabilityGate) (checkpoints : Option CheckpointStore)
    (fs : FileSystem) (heartbeatIntervalMs : Nat) (events : List Event)
    (distinct : (receivedIds host (start gate checkpoints fs heartbeatIntervalMs) events).Nodup)
    (spared : Along host (start gate checkpoints fs heartbeatIntervalMs) AsksNoDelete events) :
    (∀ id given, (clientAfter host (start gate checkpoints fs heartbeatIntervalMs)
        events).consent.pending.lookup id = some given →
      ∃ action, (clientAfter host (start gate checkpoints fs heartbeatIntervalMs)
          events).parked.lookup id = some action ∧ action.frame = given.raisedBy ∧
        (clientAfter host (start gate checkpoints fs heartbeatIntervalMs) events).results id = 0) ∧
    ∀ id action, (clientAfter host (start gate checkpoints fs heartbeatIntervalMs)
        events).parked.lookup id = some action →
      (∃ given, (clientAfter host (start gate checkpoints fs heartbeatIntervalMs)
          events).consent.pending.lookup id = some given ∧ given.raisedBy = action.frame) ∨
      ∃ decision, (clientAfter host (start gate checkpoints fs heartbeatIntervalMs)
          events).consent.decided id = some decision ∧ decision.given.raisedBy = action.frame := by
  have kept := kept_run host gate checkpoints fs heartbeatIntervalMs events distinct
  have matched := rendezvous_run Rendezvous.Matched Rendezvous.Pairs
    (fun _ action matched pairs => matched.step action pairs) (fun _ _ => trivial) host
    (start gate checkpoints fs heartbeatIntervalMs) events
    (permits_pairs host gate checkpoints fs heartbeatIntervalMs events distinct spared) .empty
  generalize clientAfter host (start gate checkpoints fs heartbeatIntervalMs) events =
    client at kept matched
  constructor
  · intro id given asked
    obtain ⟨waits, -⟩ := matched.prompted id given.raisedBy (by simp [WsClient.rendezvous, asked])
    simp only [WsClient.rendezvous, Option.map_eq_some_iff] at waits
    obtain ⟨action, held, same⟩ := waits
    exact ⟨action, held, same, kept.unanswered id (by simp [held])⟩
  · intro id action held
    rcases matched.awaited id action.frame (by simp [WsClient.rendezvous, held]) with
      asked | ⟨ticket, met, same⟩
    · simp only [WsClient.rendezvous, Option.map_eq_some_iff] at asked
      exact .inl asked
    · rw [WsClient.rendezvous_first, Option.map_eq_some_iff] at met
      obtain ⟨decision, decided, rfl⟩ := met
      exact .inr ⟨decision, decided, same⟩

/-- The read outside the allowed directory has its prompt on screen. -/
theorem prompt_parked_read : ∃ action given,
    (clientAfter .quiet askedStart [.frame (.quiet 1) (.actionRequest askedRead)]).parked.lookup
      "1" = some action ∧
    (clientAfter .quiet askedStart
      [.frame (.quiet 1) (.actionRequest askedRead)]).consent.pending.lookup "1" = some given ∧
    action.frame = given.raisedBy := by
  have distinct : (receivedIds .quiet askedStart
      [.frame (.quiet 1) (.actionRequest askedRead)]).Nodup := by decide
  have asked : ((clientAfter .quiet askedStart
      [.frame (.quiet 1) (.actionRequest askedRead)]).consent.pending.lookup "1").isSome := by
    decide
  obtain ⟨given, asked⟩ := Option.isSome_iff_exists.mp asked
  have spared : AsksNoDelete askedStart (.frame (.quiet 1) (.actionRequest askedRead)) := by
    intro moment request arrives deletes
    simp only [input_request, Event.frame.injEq, ServerFrame.actionRequest.injEq] at arrives
    rw [← arrives.1.2] at deletes
    exact absurd deletes (by decide)
  obtain ⟨action, held, same, -⟩ := (prompt_parked .quiet _ none .empty 30000
    [.frame (.quiet 1) (.actionRequest askedRead)] distinct (.cons spared (.nil _))).1 "1" given
    asked
  exact ⟨action, given, held, asked, same⟩

/-- A delete outside the allowed directory. -/
def askedDelete : ActionRequestFrame :=
  ⟨1, "1", "desktop.fs.delete", .object [("path", .string "/etc/a")], none, false⟩

def deletingStart : Connection := start (.ofScopes ⟨["desktop.fs.delete"], ["/w"]⟩) none .empty 30000

/-- The prompt of a delete stays on screen although the delete is answered and not parked. -/
theorem prompt_stranded :
    ¬ ∀ (host : Host) (gate : CapabilityGate) (checkpoints : Option CheckpointStore)
      (fs : FileSystem) (heartbeatIntervalMs : Nat) (events : List Event),
      (receivedIds host (start gate checkpoints fs heartbeatIntervalMs) events).Nodup →
      ∀ id, ((clientAfter host (start gate checkpoints fs heartbeatIntervalMs)
          events).consent.pending.lookup id).isSome →
        ((clientAfter host (start gate checkpoints fs heartbeatIntervalMs)
          events).parked.lookup id).isSome := by
  intro claim
  have parked := claim .quiet (.ofScopes ⟨["desktop.fs.delete"], ["/w"]⟩) none .empty 30000
    [.frame (.quiet 1) (.actionRequest askedDelete)] (by decide) "1" (by decide)
  have state : ((clientAfter .quiet deletingStart
      [.frame (.quiet 1) (.actionRequest askedDelete)]).parked.lookup "1").isSome = false := by
    decide
  exact absurd (state.symm.trans parked) (by decide)

end Connection

end Daemon
