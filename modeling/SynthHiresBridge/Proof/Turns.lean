import SynthHiresBridge.Daemon.WsLoop
import SynthHiresBridge.Proof.Arms
import SynthHiresBridge.Transition.Rendezvous

namespace Daemon

open Posix Transition

/-- What an event puts to the client of a live connection. -/
inductive Input where
  | request (moment : Moment) (request : ActionRequestFrame)
  | push (moment : Moment) (request : ActionRequestFrame)
  | answer (actionId : String) (answer : ConsentAnswer)
  | deliver (moment : Moment)
  | sweep (moment : Moment)
  | scopes (scopes : Scopes)

namespace Connection

/-- A connection starts live, with nothing parked, nothing on screen and nothing sent. -/
def start (gate : CapabilityGate) (checkpoints : Option CheckpointStore) (fs : FileSystem)
    (heartbeatIntervalMs : Nat) : Connection where
  client := .start gate checkpoints fs
  expectedHeartbeat := none
  consecutiveMisses := 0
  heartbeatIntervalMs := heartbeatIntervalMs
  live := true

/-- Frames, decisions and ticks reach the client over a live connection only. -/
def input (connection : Connection) (event : Event) : Option Input :=
  match event with
  | .frame moment (.actionRequest request) =>
      if connection.live then
        if request.capability = "sync.chat.push" then some (.push moment request)
        else some (.request moment request)
      else none
  | .frame _ (.scopeUpdate scopes) => if connection.live then some (.scopes scopes) else none
  | .frame _ (.consentResponse response) =>
      if connection.live then some (.answer response.id ⟨response.approved, response.remember⟩)
      else none
  | .frame _ _ => none
  | .deliver moment => if connection.live then some (.deliver moment) else none
  | .tick moment => if connection.live then some (.sweep moment) else none
  | .localAnswer actionId answer => some (.answer actionId answer)
  | .machine _ => none
  | .closed => none
  | .connected scopes _ => if connection.live then none else some (.scopes scopes)

/-- A request reaches the client as a frame over a live connection. -/
@[simp] theorem input_request (connection : Connection) (event : Event) (moment : Moment)
    (request : ActionRequestFrame) :
    connection.input event = some (.request moment request) ↔
      event = .frame moment (.actionRequest request) ∧ connection.live = true ∧
        request.capability ≠ "sync.chat.push" := by
  unfold input
  split <;> grind

@[simp] theorem input_push (connection : Connection) (event : Event) (moment : Moment)
    (request : ActionRequestFrame) :
    connection.input event = some (.push moment request) ↔
      event = .frame moment (.actionRequest request) ∧ connection.live = true ∧
        request.capability = "sync.chat.push" := by
  unfold input
  split <;> grind

@[simp] theorem input_deliver (connection : Connection) (event : Event) (moment : Moment) :
    connection.input event = some (.deliver moment) ↔
      event = .deliver moment ∧ connection.live = true := by
  unfold input
  split <;> grind

@[simp] theorem input_sweep (connection : Connection) (event : Event) (moment : Moment) :
    connection.input event = some (.sweep moment) ↔
      event = .tick moment ∧ connection.live = true := by
  unfold input
  split <;> grind

@[simp] theorem input_scopes (connection : Connection) (event : Event) (scopes : Scopes) :
    connection.input event = some (.scopes scopes) ↔
      (∃ moment, event = .frame moment (.scopeUpdate scopes) ∧ connection.live = true) ∨
        ∃ interval, event = .connected scopes interval ∧ connection.live = false := by
  unfold input
  split <;> aesop

/-- The client after the events of a run. -/
def clientAfter (host : Host) (start : Connection) (events : List Event) : WsClient :=
  (run (step host) start events).client

/-- A condition on the connection and the next event holds at every step of a run. -/
def Along (host : Host) (start : Connection) (holds : Connection → Event → Prop)
    (events : List Event) : Prop :=
  Throughout (fun before event => holds (run (step host) start before) event) events

end Connection

namespace WsClient

def take (client : WsClient) (host : Host) : Input → WsClient
  | .request moment request => client.handleAction host moment request none
  | .push moment request => (client.handleChatPush moment request).1
  | .answer actionId answer => { client with consent := client.consent.answer actionId answer }
  | .deliver moment => client.resume host moment
  | .sweep moment => client.sweepExpiredParked moment
  | .scopes scopes => { client with gate := .ofScopes scopes }

/-- Nothing but the disk changes, and no result is sent. -/
structure Idles (before after : WsClient) : Prop where
  gate : after.gate = before.gate
  consent : after.consent = before.consent
  parked : after.parked = before.parked
  sent : ∃ frames, after.sent = before.sent ++ frames ∧ ∀ frame ∈ frames, frame.resultId = none

theorem Idles.refl (client : WsClient) : Idles client client :=
  ⟨rfl, rfl, rfl, [], by simp, by simp⟩

theorem Idles.heartbeat (client : WsClient) (frame : HeartbeatFrame) :
    Idles client (client.send (.heartbeat frame)) :=
  ⟨rfl, rfl, rfl, [.heartbeat frame], rfl, by simp [SentFrame.resultId]⟩

end WsClient

namespace Connection

theorem tick_idles (connection : Connection) (moment : Moment) :
    WsClient.Idles (connection.client.sweepExpiredParked moment) (connection.tick moment).client := by
  unfold tick
  cases connection.expectedHeartbeat with
  | none => exact .heartbeat _ _
  | some sentAt =>
      simp only
      split
      · exact .refl _
      · split
        · exact .refl _
        · exact .heartbeat _ _

/-- A step gives the client its input, and an event without one leaves the client idle. -/
theorem step_idles (connection : Connection) (host : Host) (event : Event) :
    WsClient.Idles ((connection.input event).elim connection.client (connection.client.take host))
      (connection.step host event).client := by
  cases event with
  | frame moment frame =>
      cases live : connection.live with
      | false =>
          have idle : connection.input (.frame moment frame) = none := by
            cases frame <;> simp [input, live]
          simp only [idle, Option.elim_none, step, live, Bool.false_eq_true, if_false]
          exact .refl _
      | true =>
          cases frame with
          | actionRequest request =>
              by_cases push : request.capability = "sync.chat.push"
              · simp only [input, live, push, step, receive, WsClient.handleFrame, if_true,
                  Option.elim_some, WsClient.take]
                exact .refl _
              · simp only [input, live, push, step, receive, WsClient.handleFrame, if_true, if_false,
                  Option.elim_some, WsClient.take]
                exact .refl _
          | scopeUpdate scopes => simpa [input, live, step, receive] using .refl _
          | consentResponse response => simpa [input, live, step, receive] using .refl _
          | heartbeatAck t => simpa [input, live, step, receive] using .refl _
          | revoke => simpa [input, live, step, receive] using .refl _
          | error code message => simpa [input, live, step, receive] using .refl _
          | ignored => simpa [input, live, step, receive] using .refl _
  | deliver moment =>
      cases live : connection.live <;> simp [input, step, live, WsClient.take] <;> exact .refl _
  | tick moment =>
      cases live : connection.live with
      | false => simpa [input, step, live] using .refl _
      | true => simpa [input, step, live, WsClient.take] using connection.tick_idles moment
  | localAnswer actionId answer => exact .refl _
  | machine fs => exact ⟨rfl, rfl, rfl, [], by simp [step, input], by simp⟩
  | closed => exact .refl _
  | connected scopes interval =>
      cases live : connection.live <;>
        simp [input, step, live, WsClient.take, handshake] <;> exact .refl _

end Connection

namespace WsClient

/-- The path gate raises a prompt for a held capability outside its scope. -/
theorem pathGate_raised (client : WsClient) (request : ActionRequestFrame)
    (capability path : String) (holds : client.gate.allows capability = true)
    (outside : client.gate.checkPathReal client.fs capability (.ofText path) ≠ .allow) :
    client.pathGate request capability path none =
      (.error .awaitingConsent, client.raisePrompt request (pathPrompt request capability path)) := by
  have outcome := client.pathGate_case request capability path none
  generalize client.pathGate request capability path none = result at outcome ⊢
  cases outcome with
  | missing _ lacking =>
      rw [holds] at lacking
      cases lacking
  | allowed _ granted => exact absurd granted outside
  | prompted _ _ => rfl

/-- A restore without its grant raises a prompt for the entry it would put back. -/
theorem restoreArm_raised (client : WsClient) (host : Host) (moment : Moment)
    (request : ActionRequestFrame) (entry : CheckpointEntry)
    (lacking : client.gate.allows "desktop.fs.restore" = false)
    (found : client.restoreEntry request = some entry) :
    client.restoreArm host moment request none =
      (client.raisePrompt request (restorePrompt request entry), .awaitingConsent) := by
  unfold restoreEntry at found
  by_cases zero : restoreTs request = 0
  · simp [zero] at found
  · cases stores : client.checkpoints with
    | none => simp [zero, stores] at found
    | some store =>
        simp only [zero, stores, if_false, Option.bind_some] at found
        simp [restoreArm, zero, stores, found, restoreDecision, lacking, restorePrompt]

/-- An arm that the path gate stops waits for the owner or answers the error, and a delete always
answers it. -/
theorem dispatch_stopped (client : WsClient) (host : Host) (moment : Moment)
    (request : ActionRequestFrame) (decision : Option ConsentAnswer) (capability path : String)
    (error : DaemonError) (after : WsClient)
    (target : gateTarget request = some (capability, path))
    (stopped : client.pathGate request capability path decision = (.error error, after)) :
    client.dispatch host moment request decision =
      if error = .awaitingConsent ∧ Arm.ofCapability request.capability ≠ .fsDelete then
        (after, .awaitingConsent)
      else (after.sendError request.id error.text, .answered) := by
  by_cases arm : Arm.ofCapability request.capability = .fsDelete
  · obtain ⟨rfl, value, rfl, delete⟩ :=
      client.dispatch_delete host moment request decision target arm
    rw [delete, deleteArm, stopped]
    simp [arm]
  · obtain ⟨run, -, gated⟩ := client.dispatch_gated host moment request decision target arm
    rw [gated, WsClient.gated, stopped]
    cases error <;> simp [arm]

/-- A new request that raises a prompt is parked, but a delete is answered instead. -/
theorem handleAction_raised (client : WsClient) (host : Host) (moment : Moment)
    (request : ActionRequestFrame) (prompt : ConsentPrompt)
    (raised : client.raises request = some prompt) :
    client.handleAction host moment request none =
      if Arm.ofCapability request.capability = .fsDelete then
        (client.raisePrompt request prompt).sendError request.id DaemonError.awaitingConsent.text
      else (client.raisePrompt request prompt).park moment request := by
  unfold raises at raised
  cases refused : client.refusal request with
  | some reason => simp [refused] at raised
  | none =>
      simp only [refused, Option.isSome_none, Bool.false_eq_true, if_false] at raised
      unfold handleAction
      simp only [refused]
      by_cases restore : Arm.ofCapability request.capability = .fsRestore
      · simp only [restore, if_true] at raised
        have lacking : client.gate.allows "desktop.fs.restore" = false := by
          by_contra granted
          simp [granted] at raised
        simp only [lacking, Bool.false_eq_true, if_false, Option.map_eq_some_iff] at raised
        obtain ⟨entry, found, rfl⟩ := raised
        simp [dispatch, restore, client.restoreArm_raised host moment request entry lacking found]
      · simp only [restore, if_false] at raised
        cases target : gateTarget request with
        | none => simp [target] at raised
        | some pair =>
            obtain ⟨capability, path⟩ := pair
            simp only [target, Option.ite_none_right_eq_some, Option.some.injEq] at raised
            obtain ⟨⟨holds, outside⟩, rfl⟩ := raised
            rw [client.dispatch_stopped host moment request none capability path .awaitingConsent _
              target (client.pathGate_raised request capability path holds outside)]
            by_cases deletes : Arm.ofCapability request.capability = .fsDelete <;> simp [deletes]

/-- A prompt carries the id of its request. -/
theorem raises_actionId (client : WsClient) (request : ActionRequestFrame)
    (prompt : ConsentPrompt) (raised : client.raises request = some prompt) :
    prompt.actionId = request.id := by
  unfold raises at raised
  split at raised
  · cases raised
  · split at raised
    · split at raised
      · cases raised
      · rw [Option.map_eq_some_iff] at raised
        obtain ⟨entry, -, rfl⟩ := raised
        rfl
    · split at raised
      · cases raised
      · split at raised
        · obtain rfl := Option.some.inj raised
          rfl
        · cases raised

/-- A new request that raises no prompt is answered, and the gate stays. -/
theorem handleAction_silent (client : WsClient) (host : Host) (moment : Moment)
    (request : ActionRequestFrame) (silent : client.raises request = none) :
    Answers client (client.handleAction host moment request none) request.id := by
  have outcome := client.handleAction_case host moment request none
  generalize client.handleAction host moment request none = after at outcome ⊢
  cases outcome with
  | answered _ _ answers => exact answers
  | parks prompt own arm raised =>
      rw [silent] at raised
      cases raised
  | deletes prompt own arm raised =>
      rw [silent] at raised
      cases raised

/-- A resumed action is answered, and a remembered approval may add its path to the gate. -/
theorem handleAction_decided (client : WsClient) (host : Host) (moment : Moment)
    (request : ActionRequestFrame) (answer : ConsentAnswer) :
    Answers client (client.handleAction host moment request (some answer)) request.id ∨
      ∃ capability path, gateTarget request = some (capability, path) ∧ answer.approved = true ∧
        answer.remember = true ∧ Answers (client.remembered path answer)
          (client.handleAction host moment request (some answer)) request.id := by
  have outcome := client.handleAction_case host moment request (some answer)
  generalize client.handleAction host moment request (some answer) = after at outcome ⊢
  cases outcome with
  | answered _ _ answers => exact .inl answers
  | remembered _ capability path _ target yes keeps answers =>
      exact .inr ⟨capability, path, target, yes, keeps, answers⟩

/-- A resumed action leaves the prompts and the parked actions alone. -/
theorem handleAction_decided_kept (client : WsClient) (host : Host) (moment : Moment)
    (request : ActionRequestFrame) (answer : ConsentAnswer) :
    (client.handleAction host moment request (some answer)).consent = client.consent ∧
      (client.handleAction host moment request (some answer)).parked = client.parked := by
  rcases client.handleAction_decided host moment request answer with
    answers | ⟨capability, path, -, -, -, answers⟩
  · exact ⟨answers.consent, answers.parked⟩
  · have consent := answers.consent
    have parked := answers.parked
    unfold remembered at consent parked
    split at consent <;> simp_all

/-- The gate changes by a grant of the server, or by a remembered approval that wakes an action. -/
theorem take_gate (client : WsClient) (host : Host) (input : Input) :
    (client.take host input).gate = client.gate ∨
    (∃ scopes, input = .scopes scopes ∧ (client.take host input).gate = .ofScopes scopes) ∨
    ∃ moment decision rest action capability path, input = .deliver moment ∧
      client.consent.notifier = decision :: rest ∧
      client.parked.lookup decision.actionId = some action ∧
      gateTarget action.frame = some (capability, path) ∧ decision.answer.approved = true ∧
      decision.answer.remember = true ∧
      (client.take host input).gate = client.gate.withAdditionalPath (.ofText path) := by
  cases input with
  | request moment request =>
      left
      cases raised : client.raises request with
      | none => exact (client.handleAction_silent host moment request raised).gate
      | some prompt =>
          rw [take, client.handleAction_raised host moment request prompt raised]
          split <;> rfl
  | push moment request =>
      left
      simp only [take, handleChatPush]
      split
      · rfl
      · split <;> rfl
  | answer actionId answer => exact .inl rfl
  | scopes scopes => exact .inr (.inl ⟨scopes, rfl, rfl⟩)
  | sweep moment =>
      left
      simp only [take, sweepExpiredParked]
      generalize client.expiredIds moment = ids
      induction ids generalizing client with
      | nil => rfl
      | cons id rest ih => exact ih (client.dropParked id)
  | deliver moment =>
      unfold take resume
      cases queued : client.consent.notifier with
      | nil => exact .inl rfl
      | cons decision rest =>
          simp only
          cases waits : client.parked.lookup decision.actionId with
          | none => exact .inl rfl
          | some action =>
              simp only
              rcases handleAction_decided
                { client with
                  consent := { client.consent with notifier := rest }
                  parked := client.parked.erase decision.actionId } host moment action.frame
                decision.answer with answers | ⟨capability, path, target, yes, keeps, answers⟩
              · exact .inl answers.gate
              · refine .inr (.inr ⟨moment, decision, rest, action, capability, path, rfl, rfl, waits,
                  target, yes, keeps, ?_⟩)
                rw [answers.gate]
                simp [remembered, keeps]

end WsClient

namespace Connection

/-- A read of a file outside the allowed directory. -/
def askedRead : ActionRequestFrame :=
  ⟨1, "1", "desktop.fs.read", .object [("path", .string "/etc/a")], none, false⟩

/-- A write outside the allowed directory under the id of the read. -/
def unseenWrite : ActionRequestFrame :=
  ⟨1, "1", "desktop.fs.write", .object [("path", .string "/etc/b"), ("content", .string "x")], none,
    false⟩

/-- A connection may read and write in one directory only. -/
def askedStart : Connection :=
  start (.ofScopes ⟨["desktop.fs.read", "desktop.fs.write"], ["/w"]⟩) none .empty 30000

end Connection

end Daemon
