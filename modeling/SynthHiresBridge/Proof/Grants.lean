import SynthHiresBridge.Proof.Binding
import SynthHiresBridge.Proof.Results

namespace Daemon

open Posix Transition

/-- A ledger has the paths of the last grant of the server, and the paths that prompts displayed
when the owner approved and remembered them since. -/
structure Ledger where
  scopes : List String
  shown : List String
  deriving DecidableEq

/-- A root is a path of the last grant or a displayed path that is not empty. -/
def Ledger.Root (ledger : Ledger) (root : String) : Prop :=
  root ∈ ledger.scopes ∨ root ∈ ledger.shown ∧ root ≠ ""

/-- A prompt displays the path that its request puts to the path gate. -/
def PendingPrompt.Displays (given : PendingPrompt) : Prop :=
  ∀ capability path, gateTarget given.raisedBy = some (capability, path) →
    given.prompt.path = some path

namespace ConsentBroker

/-- Every prompt displays its path, and the path of a remembered approval in the queue was shown. -/
structure Shows (shown : List String) (broker : ConsentBroker) : Prop where
  screen : ∀ id given, broker.pending.lookup id = some given → given.Displays
  queue : ∀ decision ∈ broker.notifier, decision.given.Displays ∧
    (decision.answer.approved = true → decision.answer.remember = true →
      ∀ path, decision.given.prompt.path = some path → path ∈ shown)

theorem Shows.ask {shown : List String} {broker : ConsentBroker} (shows : Shows shown broker)
    (prompt : ConsentPrompt) (request : ActionRequestFrame)
    (displays : PendingPrompt.Displays ⟨prompt, request⟩) : Shows shown (broker.ask prompt request) := by
  refine ⟨fun id given asked => ?_, shows.queue⟩
  rw [ask_lookup] at asked
  split at asked
  · obtain rfl := Option.some.inj asked
    exact displays
  · exact shows.screen id given asked

theorem Shows.answer {shown later : List String} {broker : ConsentBroker}
    (shows : Shows shown broker) (id : String) (answer : ConsentAnswer)
    (more : ∀ path ∈ shown, path ∈ later)
    (noted : answer.approved = true → answer.remember = true → ∀ given,
      broker.pending.lookup id = some given → ∀ path, given.prompt.path = some path →
        path ∈ later) : Shows later (broker.answer id answer) := by
  have older : ∀ decision ∈ broker.notifier, decision.given.Displays ∧
      (decision.answer.approved = true → decision.answer.remember = true →
        ∀ path, decision.given.prompt.path = some path → path ∈ later) := by
    intro decision member
    obtain ⟨displays, earlier⟩ := shows.queue decision member
    exact ⟨displays, fun yes keeps path named => more path (earlier yes keeps path named)⟩
  rcases broker.answer_eq id answer with ⟨-, same⟩ | ⟨given, asked, queued, screen⟩
  · rw [same]
    exact ⟨shows.screen, older⟩
  · constructor
    · intro other pending held
      rw [screen] at held
      split at held
      · cases held
      · exact shows.screen other pending held
    · intro decision member
      rw [queued] at member
      rcases List.mem_append.mp member with earlier | new
      · exact older decision earlier
      · rw [List.mem_singleton] at new
        subst new
        exact ⟨shows.screen id given asked, fun yes keeps path named =>
          noted yes keeps given asked path named⟩

theorem Shows.tail {shown : List String} {broker : ConsentBroker} (shows : Shows shown broker)
    (decision : Decision) (rest : List Decision) (queued : broker.notifier = decision :: rest) :
    Shows shown { broker with notifier := rest } :=
  ⟨shows.screen, fun later member => shows.queue later (queued ▸ List.mem_cons_of_mem _ member)⟩

end ConsentBroker

namespace WsClient

/-- A raised prompt displays the path of its request. -/
theorem raises_displays (client : WsClient) (request : ActionRequestFrame)
    (prompt : ConsentPrompt) (raised : client.raises request = some prompt) :
    PendingPrompt.Displays ⟨prompt, request⟩ := by
  intro capability path target
  have other : Arm.ofCapability request.capability ≠ .fsRestore := by
    intro restore
    simp [gateTarget, restore] at target
  simp only at target
  unfold raises at raised
  split at raised
  · cases raised
  · simp only [target] at raised
    split at raised
    · obtain rfl := Option.some.inj raised
      rfl
    · cases raised

end WsClient

namespace Connection

/-- A grant of the server opens a new page of the ledger, and a remembered approval adds the path of
its prompt. -/
def note (connection : Connection) (ledger : Ledger) (event : Event) : Ledger :=
  match connection.input event with
  | some (.scopes scopes) => ⟨scopes.alwaysAllowPaths, []⟩
  | some (.answer actionId answer) =>
      match (connection.client.consent.pending.lookup actionId).bind (·.prompt.path) with
      | some path =>
          if answer.approved && answer.remember then
            { ledger with shown := ledger.shown ++ [path] }
          else ledger
      | none => ledger
  | _ => ledger

/-- The ledger after the events of a run that starts with a grant. -/
def ledgerAfter (host : Host) (start : Connection) (scopes : Scopes) (events : List Event) : Ledger :=
  annotate (step host) note start ⟨scopes.alwaysAllowPaths, []⟩ events

/-- A grant of the server comes while no remembered approval waits in the queue. -/
def GrantsAlone (connection : Connection) (event : Event) : Prop :=
  ∀ scopes, connection.input event = some (.scopes scopes) →
    ∀ decision ∈ connection.client.consent.notifier,
      ¬ (decision.answer.approved = true ∧ decision.answer.remember = true)

/-- A remembered approval wakes no action on the empty path. -/
def WakesNamed (connection : Connection) (event : Event) : Prop :=
  ∀ moment decision rest action capability path,
    connection.input event = some (.deliver moment) →
    connection.client.consent.notifier = decision :: rest →
    connection.client.parked.lookup decision.actionId = some action →
    decision.answer.approved = true → decision.answer.remember = true →
    gateTarget action.frame = some (capability, path) → path ≠ ""

/-- The gate has no one-shot path and allows roots of the ledger only, and the broker shows what the
ledger says. -/
structure Granted (ledger : Ledger) (client : WsClient) : Prop where
  single : client.gate.snapshot.oneShotPaths = []
  roots : ∀ path ∈ client.gate.snapshot.alwaysAllowPaths,
    ∃ root, ledger.Root root ∧ path = PathBuf.ofText root
  shows : client.consent.Shows ledger.shown

theorem Granted.idles {ledger : Ledger} {before after : WsClient}
    (idles : WsClient.Idles before after) (granted : Granted ledger before) :
    Granted ledger after := by
  refine ⟨?_, ?_, ?_⟩
  · rw [idles.gate]
    exact granted.single
  · rw [idles.gate]
    exact granted.roots
  · rw [idles.consent]
    exact granted.shows

/-- An input that is no grant and no answer keeps what the broker shows. -/
theorem Granted.take_shows {ledger : Ledger} {client : WsClient} (granted : Granted ledger client)
    (host : Host) (input : Input) (other : ∀ id answer, input ≠ .answer id answer) :
    (client.take host input).consent.Shows ledger.shown := by
  have shows := granted.shows
  cases input with
  | request moment request =>
      rw [WsClient.take]
      cases raised : client.raises request with
      | none =>
          rw [(client.handleAction_silent host moment request raised).consent]
          exact shows
      | some prompt =>
          rw [client.handleAction_raised host moment request prompt raised]
          have asked := shows.ask prompt request (client.raises_displays request prompt raised)
          split <;> exact asked
  | push moment request =>
      rcases client.handleChatPush_cases moment request with lost | ⟨-, answers⟩
      · rw [WsClient.take, lost]
        exact shows
      · rw [WsClient.take, answers.consent]
        exact shows
  | answer id answer => exact absurd rfl (other id answer)
  | scopes scopes => exact shows
  | sweep moment =>
      simp only [WsClient.take, WsClient.sweepExpiredParked]
      generalize client.expiredIds moment = ids
      clear granted
      induction ids generalizing client with
      | nil => exact shows
      | cons id rest ih =>
          refine ih (shows.answer id ⟨false, false⟩ (fun _ member => member) ?_)
          intro yes
          cases yes
  | deliver moment =>
      unfold WsClient.take WsClient.resume
      cases queued : client.consent.notifier with
      | nil => exact shows
      | cons decision rest =>
          have tail := shows.tail decision rest queued
          simp only
          cases client.parked.lookup decision.actionId with
          | none => exact tail
          | some action =>
              simp only
              rw [(WsClient.handleAction_decided_kept _ host moment action.frame
                decision.answer).1]
              exact tail

/-- An input that is no grant and no answer keeps the ledger when a remembered approval adds one of
its roots. -/
theorem Granted.take {ledger : Ledger} {client : WsClient} (granted : Granted ledger client)
    (host : Host) (input : Input) (unanswered : ∀ id answer, input ≠ .answer id answer)
    (ungranted : ∀ scopes, input ≠ .scopes scopes)
    (rooted : ∀ moment decision rest action capability path, input = .deliver moment →
      client.consent.notifier = decision :: rest →
      client.parked.lookup decision.actionId = some action →
      gateTarget action.frame = some (capability, path) → decision.answer.approved = true →
      decision.answer.remember = true → ledger.Root path) :
    Granted ledger (client.take host input) := by
  have shows := granted.take_shows host input unanswered
  rcases client.take_gate host input with same | ⟨scopes, grant, -⟩ |
    ⟨moment, decision, rest, action, capability, path, wakes, queued, waits, target, yes, keeps,
      same⟩
  · refine ⟨?_, ?_, shows⟩
    · rw [same]
      exact granted.single
    · rw [same]
      exact granted.roots
  · exact absurd grant (ungranted scopes)
  · refine ⟨?_, fun entry member => ?_, shows⟩
    · rw [same]
      exact granted.single
    · rw [same] at member
      rcases List.mem_append.mp member with earlier | new
      · exact granted.roots entry earlier
      · exact ⟨path, rooted moment decision rest action capability path wakes queued waits target yes
          keeps, List.mem_singleton.mp new⟩

/-- The path that a bound approval adds was shown. -/
theorem Granted.woken {ledger : Ledger} {client : WsClient} (granted : Granted ledger client)
    (bound : client.rendezvous.Bound) (decision : Decision) (rest : List Decision)
    (action : ParkedAction) (capability path : String)
    (queued : client.consent.notifier = decision :: rest)
    (waits : client.parked.lookup decision.actionId = some action)
    (target : gateTarget action.frame = some (capability, path))
    (yes : decision.answer.approved = true) (keeps : decision.answer.remember = true) :
    path ∈ ledger.shown := by
  have own := client.raisedBy_of_bound bound decision rest action queued waits yes
  obtain ⟨displays, shown⟩ := granted.shows.queue decision (by simp [queued])
  exact shown yes keeps path (displays capability path (own ▸ target))

/-- An answer keeps the ledger, which notes its prompt when it is a remembered approval. -/
theorem Granted.answered {ledger : Ledger} {connection : Connection}
    (granted : Granted ledger connection.client) (host : Host) (event : Event) (id : String)
    (answer : ConsentAnswer) (arrives : connection.input event = some (.answer id answer)) :
    Granted (connection.note ledger event)
      (connection.client.take host (.answer id answer)) := by
  simp only [note, arrives]
  cases prompt : (connection.client.consent.pending.lookup id).bind (·.prompt.path) with
  | none =>
      refine ⟨granted.single, granted.roots,
        granted.shows.answer id answer (fun _ member => member) ?_⟩
      intro _ _ given asked path display
      simp [asked, display] at prompt
  | some path =>
      cases said : answer.approved && answer.remember with
      | true =>
          refine ⟨granted.single, fun entry member => ?_, granted.shows.answer id answer
            (fun _ member => List.mem_append_left _ member) ?_⟩
          · obtain ⟨root, rooted, same⟩ := granted.roots entry member
            refine ⟨root, ?_, same⟩
            rcases rooted with listed | ⟨shown, solid⟩
            · exact .inl listed
            · exact .inr ⟨List.mem_append_left _ shown, solid⟩
          · intro _ _ given asked other display
            obtain rfl : path = other := by simpa [asked, display, eq_comm] using prompt
            exact List.mem_append_right _ (List.mem_singleton_self _)
      | false =>
          refine ⟨granted.single, granted.roots,
            granted.shows.answer id answer (fun _ member => member) ?_⟩
          intro yes keeps
          simp [yes, keeps] at said

/-- An event keeps the ledger when its approvals bind, its grants come alone and its remembered
approvals wake named actions. -/
theorem Granted.step {ledger : Ledger} {connection : Connection}
    (granted : Granted ledger connection.client) (host : Host) (event : Event)
    (bound : connection.client.rendezvous.Bound) (alone : GrantsAlone connection event)
    (named : WakesNamed connection event) :
    Granted (connection.note ledger event) (connection.step host event).client := by
  refine .idles (connection.step_idles host event) ?_
  cases arrives : connection.input event with
  | none =>
      simp only [note, arrives]
      exact granted
  | some input =>
      simp only [Option.elim_some]
      cases input with
      | answer id answer => exact granted.answered host event id answer arrives
      | scopes scopes =>
          simp only [note, arrives]
          refine ⟨rfl, fun entry member => ?_, granted.shows.screen, fun decision member => ?_⟩
          · obtain ⟨root, listed, rfl⟩ := List.mem_map.mp member
            exact ⟨root, .inl listed, rfl⟩
          · refine ⟨(granted.shows.queue decision member).1, fun yes keeps => ?_⟩
            exact absurd ⟨yes, keeps⟩ (alone scopes arrives decision member)
      | request moment request =>
          simp only [note, arrives]
          exact granted.take host _ (by simp) (by simp) (by simp)
      | push moment request =>
          simp only [note, arrives]
          exact granted.take host _ (by simp) (by simp) (by simp)
      | sweep moment =>
          simp only [note, arrives]
          exact granted.take host _ (by simp) (by simp) (by simp)
      | deliver moment =>
          simp only [note, arrives]
          refine granted.take host _ (by simp) (by simp) ?_
          intro _ decision rest action capability path _ queued waits target yes keeps
          exact .inr ⟨granted.woken bound decision rest action capability path queued waits target yes
            keeps, named moment decision rest action capability path arrives queued waits yes keeps
            target⟩

/-- The ledger is kept in every run whose events keep it. -/
theorem granted_run (host : Host) (scopes : Scopes) (checkpoints : Option CheckpointStore)
    (fs : FileSystem) (heartbeatIntervalMs : Nat) (events : List Event)
    (binds : Along host (start (.ofScopes scopes) checkpoints fs heartbeatIntervalMs)
      (Permits Rendezvous.Binds) events)
    (alone : Along host (start (.ofScopes scopes) checkpoints fs heartbeatIntervalMs) GrantsAlone
      events)
    (named : Along host (start (.ofScopes scopes) checkpoints fs heartbeatIntervalMs) WakesNamed
      events) :
    Granted (ledgerAfter host (start (.ofScopes scopes) checkpoints fs heartbeatIntervalMs) scopes
      events) (clientAfter host (start (.ofScopes scopes) checkpoints fs heartbeatIntervalMs)
        events) := by
  induction events using List.reverseRecOn with
  | nil =>
      refine ⟨rfl, fun entry member => ?_, fun _ _ asked => (nomatch asked),
        fun _ member => (nomatch member)⟩
      obtain ⟨root, listed, rfl⟩ := List.mem_map.mp member
      exact ⟨root, .inl listed, rfl⟩
  | append_singleton events event ih =>
      have before := ih binds.front alone.front named.front
      have bound := bound_run host _ checkpoints fs heartbeatIntervalMs events binds.front
      rw [ledgerAfter, annotate_concat, clientAfter, run_concat]
      exact before.step host event bound alone.last named.last

/-- A remembered approval widens the gate only to what its prompt displayed: an allowed path lies
under a path of the last grant or under a displayed path that is not empty. This holds in every run
whose approvals bind, whose grants come alone and whose remembered approvals wake no action on the
empty path. -/
theorem allowed_shown (host : Host) (scopes : Scopes) (checkpoints : Option CheckpointStore)
    (fs : FileSystem) (heartbeatIntervalMs : Nat) (events : List Event)
    (binds : Along host (start (.ofScopes scopes) checkpoints fs heartbeatIntervalMs)
      (Permits Rendezvous.Binds) events)
    (alone : Along host (start (.ofScopes scopes) checkpoints fs heartbeatIntervalMs) GrantsAlone
      events)
    (named : Along host (start (.ofScopes scopes) checkpoints fs heartbeatIntervalMs) WakesNamed
      events)
    (capability : String) (path : PathBuf)
    (allowed : (clientAfter host (start (.ofScopes scopes) checkpoints fs heartbeatIntervalMs)
      events).gate.checkPath capability path = .allow) :
    ∃ root, (ledgerAfter host (start (.ofScopes scopes) checkpoints fs heartbeatIntervalMs) scopes
      events).Root root ∧ path.startsWith (.ofText root) = true := by
  have granted := granted_run host scopes checkpoints fs heartbeatIntervalMs events binds alone named
  obtain ⟨-, -, approved | covered⟩ := (CapabilityGate.checkPath_allow_iff _ _ _).mp allowed
  · simp [CapabilityGate.oneShot, granted.single] at approved
  · obtain ⟨-, entry, member, covers⟩ := (CapabilityGate.pathMatchesAny_iff _ _).mp covered
    obtain ⟨root, rooted, rfl⟩ := granted.roots entry member
    exact ⟨root, rooted, covers⟩

/-- The owner approves the read, remembers the approval, and the read runs. -/
def rememberedRead : List Event :=
  [.frame (.quiet 1) (.actionRequest askedRead),
    .frame (.quiet 2) (.consentResponse ⟨1, "1", true, true⟩), .deliver (.quiet 3)]

theorem rememberedRead_conditions :
    Along .quiet askedStart (Permits Rendezvous.Binds) rememberedRead ∧
      Along .quiet askedStart GrantsAlone rememberedRead ∧
      Along .quiet askedStart WakesNamed rememberedRead := by
  refine ⟨.cons (start_binds _ _ _ _ _) (.cons (quiet_binds _ _ (by simp)) (.cons
    (quiet_binds _ _ (by simp)) (.nil _))), .cons ?_ (.cons ?_ (.cons ?_ (.nil _))),
    .cons ?_ (.cons ?_ (.cons ?_ (.nil _)))⟩
  · exact fun scopes arrives => by simp at arrives
  · exact fun scopes arrives => by simp at arrives
  · exact fun scopes arrives => by simp at arrives
  · exact fun moment decision rest action capability path arrives => by simp at arrives
  · exact fun moment decision rest action capability path arrives => by simp at arrives
  · intro moment decision rest action capability path _ queued waits _ _ target empty
    have state : (clientAfter .quiet askedStart (rememberedRead.take 2)).consent.notifier.all
        (fun decision => ((clientAfter .quiet askedStart
          (rememberedRead.take 2)).parked.lookup decision.actionId).all fun action =>
            (gateTarget action.frame).all fun target => target.2 ≠ "") = true := by
      decide
    rw [List.all_eq_true] at state
    have solid := state decision (by
      rw [show (clientAfter .quiet askedStart (rememberedRead.take 2)).consent.notifier =
        decision :: rest from queued]
      exact List.mem_cons_self ..)
    rw [show (clientAfter .quiet askedStart (rememberedRead.take 2)).parked.lookup
      decision.actionId = some action from waits] at solid
    simp [target, empty] at solid

/-- The remembered read allows its own file, and the file was displayed. -/
theorem allowed_shown_read : ∃ root,
    (ledgerAfter .quiet askedStart ⟨["desktop.fs.read", "desktop.fs.write"], ["/w"]⟩
      rememberedRead).Root root ∧ (PathBuf.ofText "/etc/a").startsWith (.ofText root) = true :=
  allowed_shown .quiet ⟨["desktop.fs.read", "desktop.fs.write"], ["/w"]⟩ none .empty 30000
    rememberedRead rememberedRead_conditions.1 rememberedRead_conditions.2.1
    rememberedRead_conditions.2.2 "desktop.fs.read" (.ofText "/etc/a") (by decide)

/-- A request for the list of checkpoints names no path. -/
def askedCheckpoints : ActionRequestFrame :=
  ⟨1, "1", "desktop.checkpoint.list", .object [], none, false⟩

/-- A remembered approval of the list of checkpoints allows every path. -/
theorem allowed_unshown :
    ¬ ∀ (host : Host) (scopes : Scopes) (checkpoints : Option CheckpointStore) (fs : FileSystem)
      (heartbeatIntervalMs : Nat) (events : List Event) (capability : String) (path : PathBuf),
      (clientAfter host (start (.ofScopes scopes) checkpoints fs heartbeatIntervalMs)
        events).gate.checkPath capability path = .allow →
      ∃ root, (ledgerAfter host (start (.ofScopes scopes) checkpoints fs heartbeatIntervalMs) scopes
        events).Root root ∧ path.startsWith (.ofText root) = true := by
  intro claim
  obtain ⟨root, rooted, covers⟩ := claim .quiet ⟨["desktop.fs.read"], ["/w"]⟩ none .empty 30000
    [.frame (.quiet 1) (.actionRequest askedCheckpoints),
      .frame (.quiet 2) (.consentResponse ⟨1, "1", true, true⟩), .deliver (.quiet 3)]
    "desktop.fs.read" (.ofText "/etc/a") (by decide)
  have ledger : ledgerAfter .quiet (start (.ofScopes ⟨["desktop.fs.read"], ["/w"]⟩) none .empty 30000)
      ⟨["desktop.fs.read"], ["/w"]⟩ [.frame (.quiet 1) (.actionRequest askedCheckpoints),
        .frame (.quiet 2) (.consentResponse ⟨1, "1", true, true⟩), .deliver (.quiet 3)] =
      ⟨["/w"], [""]⟩ := by
    decide
  rw [ledger] at rooted
  rcases rooted with listed | ⟨shown, solid⟩
  · rw [List.mem_singleton.mp listed] at covers
    exact absurd covers (by decide)
  · exact solid (List.mem_singleton.mp shown)

end Connection

end Daemon
