import SynthHiresBridge.Proof.Refinement

namespace Daemon

open Posix Transition

namespace WsClient

/-- In a bound client the next approval was given to the prompt of the action it wakes. -/
theorem raisedBy_of_bound (client : WsClient) (bound : client.rendezvous.Bound)
    (decision : Decision) (rest : List Decision) (action : ParkedAction)
    (queued : client.consent.notifier = decision :: rest)
    (waits : client.parked.lookup decision.actionId = some action)
    (yes : decision.answer.approved = true) : decision.given.raisedBy = action.frame := by
  have met := bound decision.actionId action.frame (by simp [rendezvous, waits])
  rw [rendezvous_first, ConsentBroker.decided, queued] at met
  simp only [List.find?_cons_of_pos, decide_true, Option.map_some] at met
  exact met yes

end WsClient

namespace Connection

section

variable (host : Host) (gate : CapabilityGate) (checkpoints : Option CheckpointStore)
  (fs : FileSystem) (heartbeatIntervalMs : Nat) (events : List Event)

/-- Approvals stay bound in every run whose actions bind. -/
theorem bound_run (binds : Along host (start gate checkpoints fs heartbeatIntervalMs)
      (Permits Rendezvous.Binds) events) :
    (clientAfter host (start gate checkpoints fs heartbeatIntervalMs) events).rendezvous.Bound :=
  rendezvous_run Rendezvous.Bound Rendezvous.Binds
    (fun _ action bound binds => bound.step action binds) (fun _ _ => trivial) host
    (start gate checkpoints fs heartbeatIntervalMs) events binds .empty

/-- The request that a decision wakes raised the prompt that an approval was given to, in every run
in which no request is parked under an approval of another one, and in which no delete asks under
the id of a parked action whose prompt is open. -/
theorem approval_bound (binds : Along host (start gate checkpoints fs heartbeatIntervalMs)
      (Permits Rendezvous.Binds) events)
    (decision : Decision) (rest : List Decision) (action : ParkedAction)
    (queued : (clientAfter host (start gate checkpoints fs heartbeatIntervalMs)
      events).consent.notifier = decision :: rest)
    (waits : (clientAfter host (start gate checkpoints fs heartbeatIntervalMs)
      events).parked.lookup decision.actionId = some action)
    (yes : decision.answer.approved = true) : decision.given.raisedBy = action.frame :=
  WsClient.raisedBy_of_bound _
    (bound_run host gate checkpoints fs heartbeatIntervalMs events binds) decision rest action queued
    waits yes

end

/-- The owner approves the prompt of the read. -/
def approvedRead : List Event :=
  [.frame (.quiet 1) (.actionRequest askedRead),
    .frame (.quiet 2) (.consentResponse ⟨1, "1", true, false⟩)]

/-- Every first event binds, since nothing waits and nothing is queued. -/
theorem start_binds (gate : CapabilityGate) (checkpoints : Option CheckpointStore)
    (fs : FileSystem) (heartbeatIntervalMs : Nat) (event : Event) :
    Permits Rendezvous.Binds (start gate checkpoints fs heartbeatIntervalMs) event := by
  intro action member
  cases action with
  | park id request => exact fun ticket met => by cases met
  | ask id request => exact fun waits => by cases waits
  | answer id approved => trivial
  | deliver => trivial
  | drop id => trivial

/-- An event that brings no request binds. -/
theorem quiet_binds (connection : Connection) (event : Event)
    (quiet : ∀ moment request, connection.input event ≠ some (.request moment request)) :
    Permits Rendezvous.Binds connection event :=
  permits_of_quiet Rendezvous.Binds (fun _ _ _ => trivial) (fun _ => trivial) (fun _ _ => trivial)
    connection event quiet

theorem approvedRead_binds (host : Host) :
    Along host askedStart (Permits Rendezvous.Binds) approvedRead :=
  .cons (start_binds _ _ _ _ _) (.cons (quiet_binds _ _ (by simp)) (.nil _))

theorem approvedRead_queued :
    (clientAfter .quiet askedStart approvedRead).consent.notifier.map (fun decision =>
      (decision.actionId, decision.answer.approved)) = [("1", true)] ∧
    ((clientAfter .quiet askedStart approvedRead).parked.lookup "1").isSome = true := by
  decide

/-- The approved read is bound to its own prompt. -/
theorem approval_bound_read : ∃ decision action,
    (clientAfter .quiet askedStart approvedRead).consent.notifier = [decision] ∧
    (clientAfter .quiet askedStart approvedRead).parked.lookup "1" = some action ∧
    decision.given.raisedBy = action.frame := by
  obtain ⟨queued, parked⟩ := approvedRead_queued
  obtain ⟨action, waits⟩ := Option.isSome_iff_exists.mp parked
  obtain ⟨decision, held, same⟩ := List.map_eq_singleton_iff.mp queued
  obtain ⟨own, yes⟩ := Prod.mk.inj same
  refine ⟨decision, action, held, waits, ?_⟩
  exact approval_bound .quiet _ none .empty 30000 approvedRead (approvedRead_binds _) decision [] action
    held (own ▸ waits) yes

/-- The write that arrives under the id of the approved read is woken by the approval of the
read. -/
theorem approval_unbound :
    ¬ ∀ (host : Host) (gate : CapabilityGate) (checkpoints : Option CheckpointStore)
      (fs : FileSystem) (heartbeatIntervalMs : Nat) (events : List Event) (decision : Decision)
      (rest : List Decision) (action : ParkedAction),
      (clientAfter host (start gate checkpoints fs heartbeatIntervalMs)
        events).consent.notifier = decision :: rest →
      (clientAfter host (start gate checkpoints fs heartbeatIntervalMs)
        events).parked.lookup decision.actionId = some action →
      decision.answer.approved = true → decision.given.raisedBy = action.frame := by
  intro claim
  have state : (clientAfter .quiet askedStart (approvedRead ++ [.frame (.quiet 3)
        (.actionRequest unseenWrite)])).consent.notifier.map (fun decision =>
          (decision.actionId, decision.answer.approved, decision.given.raisedBy.capability)) =
        [("1", true, "desktop.fs.read")] ∧
      ((clientAfter .quiet askedStart (approvedRead ++ [.frame (.quiet 3)
        (.actionRequest unseenWrite)])).parked.lookup "1").map (·.frame.capability) =
          some "desktop.fs.write" := by
    decide
  obtain ⟨queued, parked⟩ := state
  obtain ⟨decision, held, same⟩ := List.map_eq_singleton_iff.mp queued
  obtain ⟨action, waits, writes⟩ := Option.map_eq_some_iff.mp parked
  simp only [Prod.mk.injEq] at same
  obtain ⟨own, yes, reads⟩ := same
  have bound := claim .quiet _ none .empty 30000 _ decision [] action held (own ▸ waits) yes
  rw [bound, writes] at reads
  exact absurd reads (by decide)

end Connection

end Daemon
