import SynthHiresBridge.Ios.BridgeService
import SynthHiresBridge.Transition.Tickets

namespace Ios

open Transition

/-- The tickets of the actions that got a result. -/
def settled (history : List Happening) : List Nat :=
  history.filterMap fun
    | .result action _ => some action.ticket
    | _ => none

theorem settled_append (before after : List Happening) :
    settled (before ++ after) = settled before ++ settled after :=
  List.filterMap_append

/-- A withdrawn capability is refused. -/
def refusal (action : Action) : Happening :=
  .result action
    (BridgeService.resultFrame action.frame.id false none (some "capability_not_granted") 0)

/-- A tap answers for the action that the alert shows, and an approval performs it unless its
capability was withdrawn. -/
structure Faithful (history : List Happening) : Prop where
  answers : ∀ action frame shown, .response action frame shown ∈ history →
    action = shown ∧ frame.id = shown.frame.id
  performs : ∀ action shown, .performed action (some shown) ∈ history → action = shown
  approvals : ∀ action frame shown, .response action frame shown ∈ history →
    frame.approved = true →
      .performed shown (some shown) ∈ history ∨ refusal shown ∈ history

/-- What is faithful on its own may follow. -/
theorem Faithful.append {before added : List Happening} (faithful : Faithful before)
    (more : Faithful added) : Faithful (before ++ added) := by
  refine ⟨?_, ?_, ?_⟩
  · intro action frame shown member
    rcases List.mem_append.mp member with early | late
    · exact faithful.answers action frame shown early
    · exact more.answers action frame shown late
  · intro action shown member
    rcases List.mem_append.mp member with early | late
    · exact faithful.performs action shown early
    · exact more.performs action shown late
  · intro action frame shown member approved
    rcases List.mem_append.mp member with early | late
    · exact (faithful.approvals action frame shown early approved).imp
        (List.mem_append_left added) (List.mem_append_left added)
    · exact (more.approvals action frame shown late approved).imp
        (List.mem_append_right before) (List.mem_append_right before)

/-- A response comes before what it leads to. -/
theorem Faithful.answer {action : Action} {frame : ConsentResponseFrame} {later : List Happening}
    (faithful : Faithful later) (id : frame.id = action.frame.id)
    (done : frame.approved = true →
      .performed action (some action) ∈ later ∨ refusal action ∈ later) :
    Faithful (.response action frame action :: later) := by
  refine ⟨?_, ?_, ?_⟩
  · intro other response shown member
    rcases List.mem_cons.mp member with now | after
    · cases now
      exact ⟨rfl, id⟩
    · exact faithful.answers other response shown after
  · intro other shown member
    rcases List.mem_cons.mp member with now | after
    · cases now
    · exact faithful.performs other shown after
  · intro other response shown member approved
    rcases List.mem_cons.mp member with now | after
    · cases now
      exact (done approved).imp (.tail _) (.tail _)
    · exact (faithful.approvals other response shown after approved).imp (.tail _) (.tail _)

/-- A result alone is faithful. -/
theorem Faithful.result (action : Action) (frame : ActionResultFrame) :
    Faithful [.result action frame] := ⟨by simp, by simp, by simp⟩

/-- So is an action that is performed for its own alert or for none. -/
theorem Faithful.perform {action : Action} {shown : Option Action} (frame : ActionResultFrame)
    (own : ∀ other ∈ shown, action = other) :
    Faithful [.performed action shown, .result action frame] := by
  refine ⟨by simp, ?_, by simp⟩
  intro other alert member
  rcases List.mem_cons.mp member with now | after
  · cases now
    exact own alert rfl
  · exact (Faithful.result action frame).performs other alert after

namespace BridgeService

def Pends (service : BridgeService) (ticket : Nat) : Prop :=
  ∃ action ∈ service.pendingConsent, action.ticket = ticket

/-- Every request waits for its answer or got exactly one result. -/
def Answered (service : BridgeService) : Prop :=
  ∀ ticket < service.arrived,
    (service.Pends ticket ∧ (settled service.history).count ticket = 0) ∨
      (¬service.Pends ticket ∧ (settled service.history).count ticket = 1)

/-- The taps are bound to what the alert shows, and no request is lost or answered twice. -/
structure Kept (service : BridgeService) : Prop where
  faithful : Faithful service.history
  answered : service.Answered

/-- A request that asks for consent comes while no other one waits, and a tap comes while the alert
shows the one that waits. -/
def Unhurried (service : BridgeService) : ServiceEvent → Prop
  | .actionRequest frame _ =>
      service.capabilities.contains frame.capability = true → needsConsent frame = true →
        frame.skipConsentPrompt = false → service.pendingConsent = none
  | .tap _ _ _ => ∀ shown ∈ service.alert, ∀ action ∈ service.pendingConsent, action = shown
  | _ => True

def waiting (service : BridgeService) : List Nat :=
  service.pendingConsent.toList.map Action.ticket

/-- Every ticket waits or is settled, and the history is faithful. -/
structure Orderly (service : BridgeService) : Prop where
  faithful : Faithful service.history
  accounted : Accounted service.arrived (service.waiting ++ settled service.history)

theorem pends_iff {service : BridgeService} {ticket : Nat} :
    service.Pends ticket ↔ ticket ∈ service.waiting := by
  simp [Pends, waiting]

theorem Orderly.kept {service : BridgeService} (orderly : service.Orderly) : service.Kept := by
  refine ⟨orderly.faithful, ?_⟩
  intro ticket known
  rw [pends_iff]
  exact orderly.accounted.split known

/-- A performed action leaves its result. -/
theorem perform_eq (service : BridgeService) (action : Action) (shown : Option Action)
    (outcome : Outcome) : ∃ frame, service.perform action shown outcome =
      { service with
        history := service.history ++ [.performed action shown, .result action frame] } := by
  rw [perform]
  cases outcome.output with
  | ok output =>
      refine ⟨resultFrame action.frame.id true (some output) none outcome.duration, ?_⟩
      simp only [sendResult, note, List.append_assoc, List.singleton_append]
  | error text =>
      refine ⟨resultFrame action.frame.id false none (some text) outcome.duration, ?_⟩
      simp only [sendResult, note, List.append_assoc, List.singleton_append]

/-- A request that was answered is refused or performed. -/
theorem handle_answered (service : BridgeService) (action shown : Action) (outcome : Outcome) :
    service.handle action (some shown) outcome =
        { service with history := service.history ++ [refusal action] } ∨
      ∃ frame, service.handle action (some shown) outcome =
        { service with
          history := service.history ++ [.performed action (some shown), .result action frame] } := by
  rw [handle]
  split_ifs with refused asks
  · exact .inl rfl
  · simp at asks
  · exact .inr (service.perform_eq action (some shown) outcome)

/-- A request that comes in waits, is refused or is performed. -/
theorem handle_new (service : BridgeService) (action : Action) (outcome : Outcome) :
    (service.capabilities.contains action.frame.capability = true ∧
        needsConsent action.frame = true ∧ action.frame.skipConsentPrompt = false ∧
        service.handle action none outcome = { service with pendingConsent := some action }) ∨
      (¬(service.capabilities.contains action.frame.capability = true ∧
          needsConsent action.frame = true ∧ action.frame.skipConsentPrompt = false) ∧
        ∃ added, Faithful added ∧ settled added = [action.ticket] ∧
          service.handle action none outcome =
            { service with history := service.history ++ added }) := by
  rw [handle]
  split_ifs with refused asks
  · refine .inr ⟨?_, [refusal action], Faithful.result action _, rfl, rfl⟩
    intro ⟨granted, _⟩
    rw [granted] at refused
    cases refused
  · refine .inl ⟨by simpa using refused, ?_⟩
    simpa using asks
  · obtain ⟨frame, same⟩ := service.perform_eq action none outcome
    refine .inr ⟨?_, [.performed action none, .result action frame], Faithful.perform frame nofun,
      rfl, same⟩
    intro ⟨_, needs, prompts⟩
    simp [needs, prompts] at asks

/-- An answer settles the action that waits, and it is faithful where the alert shows that one. -/
theorem approveConsent_eq {service : BridgeService} {action : Action}
    (waits : service.pendingConsent = some action) (shown : Action) (approved remember : Bool)
    (outcome : Outcome) :
    ∃ added, settled added = [action.ticket] ∧
      (∃ frame, .response action frame shown ∈ added) ∧ (action = shown → Faithful added) ∧
      service.approveConsent shown approved remember outcome =
        { service with pendingConsent := none, history := service.history ++ added } := by
  simp only [approveConsent, waits]
  cases approved with
  | false =>
      refine ⟨[.response action ⟨bridgeProtocolVersion, action.frame.id, false, remember⟩ shown,
        .result action (resultFrame action.frame.id false none (some "consent_denied") 0)], rfl,
        ⟨_, .head _⟩, ?_, ?_⟩
      · rintro rfl
        exact (Faithful.result action _).answer rfl nofun
      · simp only [Bool.not_false, if_true, sendResult, note, List.append_assoc,
          List.singleton_append]
  | true =>
      simp only [Bool.not_true, Bool.false_eq_true, if_false]
      rcases handle_answered
        ({ service with pendingConsent := none }.note (.response action
          ⟨bridgeProtocolVersion, action.frame.id, true, remember⟩ shown)) action shown outcome with
        same | ⟨frame, same⟩
      · refine ⟨[.response action ⟨bridgeProtocolVersion, action.frame.id, true, remember⟩ shown,
          refusal action], rfl, ⟨_, .head _⟩, ?_, ?_⟩
        · rintro rfl
          exact (Faithful.result action _).answer rfl fun _ => .inr (.head _)
        · rw [same]
          simp only [note, List.append_assoc, List.singleton_append]
      · refine ⟨[.response action ⟨bridgeProtocolVersion, action.frame.id, true, remember⟩ shown,
          .performed action (some shown), .result action frame], rfl, ⟨_, .head _⟩, ?_, ?_⟩
        · rintro rfl
          refine (Faithful.perform frame ?_).answer rfl fun _ => .inl (.head _)
          intro other own
          exact Option.some.inj own
        · rw [same]
          simp only [note, List.append_assoc, List.singleton_append]

/-- A request is settled at once or comes to an empty place. -/
theorem Orderly.arrive {service : BridgeService} (orderly : service.Orderly)
    (frame : ActionRequestFrame) (outcome : Outcome)
    (calm : service.Unhurried (.actionRequest frame outcome)) :
    (service.step (.actionRequest frame outcome)).Orderly := by
  rw [step]
  rcases handle_new { service with arrived := service.arrived + 1 } ⟨service.arrived, frame⟩
    outcome with ⟨granted, needs, prompts, same⟩ | ⟨-, added, faithful, once, same⟩
  · have empty : service.pendingConsent = none := calm granted needs prompts
    rw [same]
    refine ⟨orderly.faithful, ?_⟩
    have drawn := orderly.accounted.draw
    rw [waiting, empty] at drawn
    exact drawn
  · rw [same]
    refine ⟨orderly.faithful.append faithful, ?_⟩
    apply orderly.accounted.draw.moved
    rw [settled_append, once, ← List.append_assoc]
    exact List.perm_append_singleton service.arrived _

/-- The answered action is the only one that waits. -/
theorem Orderly.answer {service : BridgeService} (orderly : service.Orderly) (shown : Action)
    (approved remember : Bool) (outcome : Outcome)
    (bound : ∀ action ∈ service.pendingConsent, action = shown) :
    (service.approveConsent shown approved remember outcome).Orderly := by
  cases waits : service.pendingConsent with
  | none =>
      rw [approveConsent, waits]
      exact orderly
  | some action =>
      obtain ⟨added, once, -, faithful, same⟩ :=
        approveConsent_eq waits shown approved remember outcome
      rw [same]
      refine ⟨orderly.faithful.append (faithful (bound action waits)), ?_⟩
      apply orderly.accounted.moved
      rw [settled_append, once, ← List.append_assoc]
      refine (List.perm_append_singleton action.ticket _).trans ?_
      rw [waiting, waiting, waits]
      rfl

theorem Orderly.step {service : BridgeService} (orderly : service.Orderly) (event : ServiceEvent)
    (calm : service.Unhurried event) : (service.step event).Orderly := by
  cases event with
  | actionRequest frame outcome => exact orderly.arrive frame outcome calm
  | scopeUpdate scopes => exact ⟨orderly.faithful, orderly.accounted⟩
  | render => exact ⟨orderly.faithful, orderly.accounted⟩
  | tap approved remember outcome =>
      rw [BridgeService.step]
      cases alert : service.alert with
      | none => exact orderly
      | some shown => exact orderly.answer shown approved remember outcome (calm shown alert)

/-- A request that comes to a full place drops the one that waits. -/
theorem Orderly.dropped {service : BridgeService} (orderly : service.Orderly) {action : Action}
    (waits : service.pendingConsent = some action) {frame : ActionRequestFrame} {outcome : Outcome}
    (granted : service.capabilities.contains frame.capability = true)
    (needs : needsConsent frame = true) (prompts : frame.skipConsentPrompt = false) :
    ¬(service.step (.actionRequest frame outcome)).Kept := by
  intro kept
  have held : action.ticket ∈ service.waiting := by
    rw [waiting, waits]
    exact List.mem_singleton_self _
  have known : action.ticket < service.arrived :=
    orderly.accounted.mem_iff.mp (List.mem_append_left _ held)
  rcases handle_new { service with arrived := service.arrived + 1 } ⟨service.arrived, frame⟩
    outcome with ⟨-, -, -, same⟩ | ⟨settles, -⟩
  · have ends := kept.answered action.ticket
    rw [BridgeService.step, same] at ends
    rcases ends (Nat.lt_succ_of_lt known) with ⟨⟨other, held, now⟩, -⟩ | ⟨-, once⟩
    · obtain rfl := Option.some.inj held
      exact absurd now.symm (Nat.ne_of_lt known)
    · rcases orderly.accounted.split known with ⟨-, unsettled⟩ | ⟨away, -⟩
      · rw [unsettled] at once
        cases once
      · exact away held
  · exact settles ⟨granted, needs, prompts⟩

/-- A tap on an alert that shows another action answers the wrong one. -/
theorem crossed {service : BridgeService} {action shown : Action}
    (waits : service.pendingConsent = some action) (other : action ≠ shown)
    (approved remember : Bool) (outcome : Outcome) :
    ¬(service.approveConsent shown approved remember outcome).Kept := by
  intro kept
  obtain ⟨added, -, ⟨frame, member⟩, -, same⟩ :=
    approveConsent_eq waits shown approved remember outcome
  rw [same] at kept
  exact other (kept.faithful.answers action frame shown (List.mem_append_right _ member)).1

/-- Each event keeps every request exactly where it does not hurry. -/
theorem Orderly.kept_iff {service : BridgeService} (orderly : service.Orderly)
    (event : ServiceEvent) : (service.step event).Kept ↔ service.Unhurried event := by
  refine ⟨?_, fun calm => (orderly.step event calm).kept⟩
  intro kept
  cases event with
  | actionRequest frame outcome =>
      intro granted needs prompts
      cases waits : service.pendingConsent with
      | none => rfl
      | some action => exact absurd kept (orderly.dropped waits granted needs prompts)
  | scopeUpdate scopes => trivial
  | render => trivial
  | tap approved remember outcome =>
      intro shown alert action waits
      by_contra other
      rw [BridgeService.step, Option.mem_def.mp alert] at kept
      exact crossed waits other approved remember outcome kept

theorem Orderly.start (capabilities : List String) : (BridgeService.start capabilities).Orderly :=
  ⟨⟨nofun, nofun, nofun⟩, .nothing⟩

/-- A request that asks for consent. -/
def writeClipboard (id : String) : ActionRequestFrame :=
  ⟨bridgeProtocolVersion, "action_request", id, "mobile.clipboard.write",
    [("text", .string "hola")], none, false⟩

def written : Outcome := ⟨.ok (.object [("written", .bool true)]), 3⟩

end BridgeService

end Ios
