import SynthHiresBridge.Proof.Refinement

namespace Daemon

open Posix Transition

/-- A request traverses when the path it puts to the path gate has a parent segment. -/
def Traverses (request : ActionRequestFrame) (capability path : String) : Prop :=
  gateTarget request = some (capability, path) ∧ (PathBuf.ofText path).hasParentDir = true

/-- No check allows a path with a parent segment. -/
theorem CapabilityGate.checkPathReal_traversal (gate : CapabilityGate) (fs : FileSystem)
    (capability : String) (path : PathBuf) (upward : path.hasParentDir = true) :
    gate.checkPathReal fs capability path ≠ .allow := by
  intro allowed
  have lexical := (gate.checkPath_allow_iff capability path).mp
    (gate.checkPath_of_checkPathReal fs capability path allowed)
  rw [upward] at lexical
  cases lexical.2.1

namespace WsClient

/-- A client turns a request away when it is refused before its arm or when the capability of its
arm is missing. -/
def TurnsAway (client : WsClient) (request : ActionRequestFrame) (capability : String) : Prop :=
  (client.refusal request).isSome ∨ client.gate.allows capability = false

/-- A request that is turned away is answered with the same error on every disk. -/
theorem handleAction_turnedAway (client : WsClient) (host : Host) (moment : Moment)
    (request : ActionRequestFrame) (decision : Option ConsentAnswer) (capability path : String)
    (target : gateTarget request = some (capability, path))
    (away : client.TurnsAway request capability) :
    client.handleAction host moment request decision =
      client.sendError request.id
        ((client.refusal request).getD (DaemonError.capabilityDenied capability).text) := by
  unfold handleAction
  cases refused : client.refusal request with
  | some reason => rfl
  | none =>
      have lacking : client.gate.allows capability = false := by
        rcases away with early | lacking
        · simp [refused] at early
        · exact lacking
      have stopped : client.pathGate request capability path decision =
          (.error (.capabilityDenied capability), client) := by
        simp [pathGate, lacking]
      simp [client.dispatch_stopped host moment request decision capability path _ client target
        stopped]

/-- A new request with a parent segment is denied at once exactly when it is turned away. Otherwise
the owner is asked. -/
theorem traversal_denied_iff (client : WsClient) (host : Host) (moment : Moment)
    (request : ActionRequestFrame) (capability path : String)
    (traverses : Traverses request capability path) :
    (∃ reason, client.handleAction host moment request none =
      client.sendError request.id reason) ↔ client.TurnsAway request capability := by
  constructor
  · rintro ⟨reason, denied⟩
    by_contra asked
    obtain ⟨early, holds⟩ := not_or.mp asked
    have raised := client.raises_of_target request capability path traverses.1
      (by simpa using holds)
      (client.gate.checkPathReal_traversal client.fs capability _ traverses.2) (by simpa using early)
    rw [client.handleAction_raised host moment request _ raised] at denied
    have sent := congrArg WsClient.sent denied
    split at sent
    · simp [raisePrompt, sendError, sendActionResult, send] at sent
    · simp [raisePrompt, park, sendError, sendActionResult, send] at sent
  · exact fun away => ⟨_, client.handleAction_turnedAway host moment request none capability path
      traverses.1 away⟩

end WsClient

namespace Connection

/-- An event brings no traversal to a client that would run it, and no grant of the server lists a
path with a parent segment. -/
def StaysForward (connection : Connection) (event : Event) : Prop :=
  (∀ moment request, connection.input event = some (.request moment request) →
    ∀ capability path, Traverses request capability path →
      connection.client.TurnsAway request capability) ∧
  ∀ scopes, connection.input event = some (.scopes scopes) →
    ∀ path ∈ scopes.alwaysAllowPaths, (PathBuf.ofText path).hasParentDir = false

section

variable (host : Host) (gate : CapabilityGate) (checkpoints : Option CheckpointStore)
  (fs : FileSystem) (heartbeatIntervalMs : Nat) (events : List Event)

/-- No traversal is parked when every traversal is turned away. -/
theorem parked_forward (forward : Along host (start gate checkpoints fs heartbeatIntervalMs)
      StaysForward events) (id : String) (action : ParkedAction) (capability path : String)
    (waits : (clientAfter host (start gate checkpoints fs heartbeatIntervalMs)
      events).parked.lookup id = some action) : ¬ Traverses action.frame capability path := by
  refine parked_run (fun request => ∀ capability path, ¬ Traverses request capability path) host
    (start gate checkpoints fs heartbeatIntervalMs) events rfl ?_ id action waits capability path
  intro before event after split id request member capability path traverses
  obtain ⟨moment, prompt, arrives, -, raised, -⟩ := actions_park _ event id request member
  have stays : StaysForward (run (step host) (start gate checkpoints fs heartbeatIntervalMs)
      before) event := forward before event after split
  rcases stays.1 moment request arrives capability path traverses with early | lacking
  · simp [WsClient.raises, early] at raised
  · have other : Arm.ofCapability request.capability ≠ .fsRestore := by
      intro restore
      have target := traverses.1
      simp [gateTarget, restore] at target
    simp [WsClient.raises, other, traverses.1, lacking] at raised

/-- The always-allow list gets no path with a parent segment when every traversal is turned away
and no grant lists one. -/
theorem gate_forward (clean : ∀ path ∈ gate.snapshot.alwaysAllowPaths, path.hasParentDir = false)
    (forward : Along host (start gate checkpoints fs heartbeatIntervalMs) StaysForward events) :
    ∀ path ∈ (clientAfter host (start gate checkpoints fs heartbeatIntervalMs)
      events).gate.snapshot.alwaysAllowPaths, path.hasParentDir = false := by
  induction events using List.reverseRecOn with
  | nil => exact clean
  | append_singleton events event ih =>
      have before := ih forward.front
      have parked := parked_forward host gate checkpoints fs heartbeatIntervalMs events forward.front
      have stays : StaysForward (run (step host) (start gate checkpoints fs heartbeatIntervalMs)
          events) event := forward.last
      rw [clientAfter, run_concat, (step_idles _ host event).gate]
      unfold clientAfter at before parked
      unfold StaysForward at stays
      generalize run (step host) (start gate checkpoints fs heartbeatIntervalMs) events =
        connection at before parked stays
      cases arrives : connection.input event with
      | none => exact before
      | some input =>
          simp only [Option.elim_some]
          rcases connection.client.take_gate host input with
            same | ⟨scopes, rfl, same⟩ |
              ⟨moment, decision, rest, action, capability, path, -, -, waits, target, -, -, same⟩
          · rw [same]
            exact before
          · rw [same]
            intro path member
            obtain ⟨text, listed, rfl⟩ := List.mem_map.mp member
            exact stays.2 scopes arrives text listed
          · rw [same]
            intro other member
            rcases List.mem_append.mp member with earlier | new
            · exact before other earlier
            · rw [List.mem_singleton.mp new]
              by_contra upward
              exact parked decision.actionId action capability path waits
                ⟨target, by simpa using upward⟩

/-- While traversals are turned away and no grant lists one, no traversal waits for an answer and
the always-allow list has no path with a parent segment. A traversal is denied at once exactly when
it is turned away. -/
theorem traversal_stopped
    (clean : ∀ path ∈ gate.snapshot.alwaysAllowPaths, path.hasParentDir = false)
    (forward : Along host (start gate checkpoints fs heartbeatIntervalMs) StaysForward events) :
    (∀ moment request capability path, Traverses request capability path →
      ((∃ reason, (clientAfter host (start gate checkpoints fs heartbeatIntervalMs)
          events).handleAction host moment request none =
        (clientAfter host (start gate checkpoints fs heartbeatIntervalMs) events).sendError
          request.id reason) ↔
        (clientAfter host (start gate checkpoints fs heartbeatIntervalMs) events).TurnsAway request
          capability)) ∧
    (∀ id action capability path, (clientAfter host
        (start gate checkpoints fs heartbeatIntervalMs) events).parked.lookup id = some action →
      ¬ Traverses action.frame capability path) ∧
    ∀ path ∈ (clientAfter host (start gate checkpoints fs heartbeatIntervalMs)
      events).gate.snapshot.alwaysAllowPaths, path.hasParentDir = false :=
  ⟨fun moment request capability path traverses =>
      WsClient.traversal_denied_iff _ host moment request capability path traverses,
    parked_forward host gate checkpoints fs heartbeatIntervalMs events forward,
    gate_forward host gate checkpoints fs heartbeatIntervalMs events clean forward⟩

end

/-- A frame that reports an executed action. -/
def SentFrame.executed : SentFrame → Bool
  | .actionResult result => result.ok
  | _ => false

/-- A listing that leaves the allowed directory through a parent segment. -/
def upwardList : ActionRequestFrame :=
  ⟨1, "1", "desktop.fs.list", .object [("path", .string "/w/../etc")], none, false⟩

/-- Without its capability the listing leaves the always-allow list clean. -/
theorem traversal_stopped_list :
    Traverses upwardList "desktop.fs.list" "/w/../etc" ∧
    ∀ path ∈ (clientAfter .quiet askedStart
      [.frame (.quiet 1) (.actionRequest upwardList)]).gate.snapshot.alwaysAllowPaths,
      path.hasParentDir = false := by
  refine ⟨⟨by decide, by decide⟩,
    (traversal_stopped .quiet _ none .empty 30000 _ (by decide)
      (.cons ⟨?_, ?_⟩ (.nil _))).2.2⟩
  · intro moment request arrives capability path _
    have own : upwardList = request := by
      simp only [input_request, Event.frame.injEq, ServerFrame.actionRequest.injEq] at arrives
      exact arrives.1.2
    have away : (askedStart.client.refusal upwardList).isSome = true := by decide
    exact .inl (own ▸ away)
  · intro scopes arrives
    simp at arrives

/-- An approved listing runs although its path has a parent segment. -/
theorem traversal_executed :
    ¬ ∀ (client : WsClient) (host : Host) (moment : Moment) (request : ActionRequestFrame)
      (decision : Option ConsentAnswer) (capability path : String),
      Traverses request capability path →
      ∃ reason, client.handleAction host moment request decision =
        client.sendError request.id reason := by
  intro claim
  obtain ⟨reason, denied⟩ := claim
    (.start (.ofScopes ⟨["desktop.fs.list"], ["/w"]⟩) none
      ((FileSystem.empty.put ["w"] .dir).put ["etc"] .dir))
    .quiet (.quiet 1) upwardList (some ⟨true, false⟩) "desktop.fs.list" "/w/../etc"
    ⟨by decide, by decide⟩
  have sent := congrArg (fun client : WsClient => client.sent.any SentFrame.executed) denied
  have ran : ((WsClient.start (.ofScopes ⟨["desktop.fs.list"], ["/w"]⟩) none
      ((FileSystem.empty.put ["w"] .dir).put ["etc"] .dir)).handleAction .quiet (.quiet 1) upwardList
        (some ⟨true, false⟩)).sent.any SentFrame.executed = true := by
    decide
  rw [ran] at sent
  exact absurd sent (by simp [WsClient.sendError, WsClient.sendActionResult, WsClient.send,
    WsClient.start, SentFrame.executed])

end Connection

end Daemon
