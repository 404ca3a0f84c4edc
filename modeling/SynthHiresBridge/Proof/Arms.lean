import SynthHiresBridge.Proof.PathGate

namespace Daemon

open Posix

/-- The action a result frame answers. -/
def SentFrame.resultId : SentFrame → Option String
  | .actionResult frame => some frame.id
  | _ => none

/-- The capability and the path that the arm of a request puts to the path gate. -/
def gateTarget (request : ActionRequestFrame) : Option (String × String) :=
  match Arm.ofCapability request.capability with
  | .fsRead => (FsReadRequest.ofParams request.params).map fun value =>
      ("desktop.fs.read", value.path)
  | .fsPatch => (FsPatchRequest.ofParams request.params).map fun value =>
      ("desktop.fs.write", value.path)
  | .fsWrite => (FsWriteRequest.ofParams request.params).map fun value =>
      ("desktop.fs.write", value.path)
  | .fsDelete => (FsDeleteRequest.ofParams request.params).map fun value =>
      ("desktop.fs.delete", value.path)
  | .checkpointList => some ("desktop.fs.read", "")
  | .fsVerify => (FsVerifyRequest.ofParams request.params).map fun value =>
      ("desktop.fs.verify", value.path)
  | .fsList => (FsListRequest.ofParams request.params).bind fun value =>
      let target := Text.trim (value.path.getD "")
      if target = "" then none else some ("desktop.fs.list", target)
  | .fsWatch => (FsWatchRequest.ofParams request.params).map fun value =>
      ("desktop.fs.watch", value.path)
  | _ => none

namespace WsClient

/-- The entry a restore would put back. -/
def restoreEntry (client : WsClient) (request : ActionRequestFrame) : Option CheckpointEntry :=
  if restoreTs request = 0 then none
  else client.checkpoints.bind fun store => store.list.find? (·.ts = restoreTs request)

def restorePrompt (request : ActionRequestFrame) (entry : CheckpointEntry) : ConsentPrompt :=
  promptFor request "desktop.fs.restore" ("Restaurar " ++ entry.path ++ " desde checkpoint")
    entry.path

/-- The prompt a new request raises, if it needs one. -/
def raises (client : WsClient) (request : ActionRequestFrame) : Option ConsentPrompt :=
  if (client.refusal request).isSome then none
  else if Arm.ofCapability request.capability = .fsRestore then
    if client.gate.allows "desktop.fs.restore" then none
    else (client.restoreEntry request).map (restorePrompt request)
  else match gateTarget request with
    | none => none
    | some (capability, path) =>
        if client.gate.allows capability ∧
            client.gate.checkPathReal client.fs capability (.ofText path) ≠ .allow then
          some (pathPrompt request capability path)
        else none

/-- An action is answered when its only result frame is sent last, and the gate, the prompts and
the parked actions stay. -/
structure Answers (before after : WsClient) (id : String) : Prop where
  gate : after.gate = before.gate
  consent : after.consent = before.consent
  parked : after.parked = before.parked
  sent : ∃ frames result, after.sent = before.sent ++ frames ++ [.actionResult result] ∧
    result.id = id ∧ ∀ frame ∈ frames, frame.resultId = none

theorem Answers.of_sendActionResult (client held : WsClient) (id : String) (ok : Bool)
    (output : Option Json.Value) (error : Option String) (durationMs : Nat)
    (gate : held.gate = client.gate) (consent : held.consent = client.consent)
    (parked : held.parked = client.parked) (sent : held.sent = client.sent) :
    Answers client (held.sendActionResult id ok output error durationMs) id := by
  refine ⟨gate, consent, parked, [], ⟨protocolVersion, id, ok, output, error.map fun message =>
    ⟨if message = "action_cancelled" then "action_cancelled" else "action_failed", message⟩,
    durationMs⟩, ?_, rfl, by simp⟩
  simp [sendActionResult, send, sent]

theorem Answers.of_sendError (client held : WsClient) (id error : String)
    (gate : held.gate = client.gate) (consent : held.consent = client.consent)
    (parked : held.parked = client.parked) (sent : held.sent = client.sent) :
    Answers client (held.sendError id error) id :=
  .of_sendActionResult client held id _ _ _ _ gate consent parked sent

theorem Answers.of_reply (client held : WsClient) (moment : Moment) (request : ActionRequestFrame)
    (result : Except DaemonError Json.Value) (gate : held.gate = client.gate)
    (consent : held.consent = client.consent) (parked : held.parked = client.parked)
    (sent : held.sent = client.sent) :
    Answers client (held.reply moment request result) request.id := by
  unfold reply
  cases result with
  | ok output => exact .of_sendActionResult client held _ _ _ _ _ gate consent parked sent
  | error error => exact .of_sendError client held _ _ gate consent parked sent

theorem Answers.of_replyVerified (client held : WsClient) (moment : Moment)
    (request : ActionRequestFrame) (mismatch : String)
    (result : Except DaemonError (Bool × Json.Value)) (gate : held.gate = client.gate)
    (consent : held.consent = client.consent) (parked : held.parked = client.parked)
    (sent : held.sent = client.sent) :
    Answers client (held.replyVerified moment request mismatch result) request.id := by
  unfold replyVerified
  cases result with
  | ok output => exact .of_sendActionResult client held _ _ _ _ _ gate consent parked sent
  | error error => exact .of_sendError client held _ _ gate consent parked sent

/-- A mutation answers its action when its operation does. -/
theorem Answers.of_mutate (client : WsClient) (host : Host) (moment : Moment)
    (request : ActionRequestFrame) (path : String) (run : WsClient → WsClient)
    (answers : ∀ held : WsClient, held.gate = client.gate → held.consent = client.consent →
      held.parked = client.parked → held.sent = client.sent →
        Answers client (run held) request.id) :
    Answers client (client.mutate host moment request path run) request.id := by
  have kept : ∀ held, (client.checkpointBefore host moment request path).2 = held →
      held.gate = client.gate ∧ held.consent = client.consent ∧ held.parked = client.parked ∧
        held.sent = client.sent := by
    rintro held rfl
    unfold checkpointBefore
    split
    · simp
    · split <;> simp
  unfold mutate
  cases captured : client.checkpointBefore host moment request path with
  | mk outcome held =>
      obtain ⟨gate, consent, parked, sent⟩ := kept held (by rw [captured])
      cases outcome with
      | ok _ => exact answers held gate consent parked sent
      | error reason => exact .of_sendError client held _ _ gate consent parked sent

/-- Another engine streams frames that are no results before it answers. -/
theorem Answers.of_runEngine (client : WsClient) (moment : Moment)
    (request : ActionRequestFrame) :
    Answers client (client.runEngine moment request) request.id := by
  refine ⟨rfl, rfl, rfl, _, _, rfl, rfl, ?_⟩
  intro frame member
  rw [List.mem_map] at member
  obtain ⟨⟨chunk, seq⟩, -, rfl⟩ := member
  rfl

theorem Answers.of_runRestore (client : WsClient) (host : Host) (moment : Moment)
    (request : ActionRequestFrame) (store : CheckpointStore) (entry : CheckpointEntry) :
    Answers client (client.runRestore host moment request store entry) request.id := by
  unfold runRestore
  simp only
  split
  · exact .of_sendActionResult client _ _ _ _ _ _ rfl rfl rfl rfl
  · exact .of_sendError client _ _ _ rfl rfl rfl rfl

theorem Answers.of_runRename (client : WsClient) (moment : Moment)
    (request : ActionRequestFrame) (value : LspRenameRequest) :
    Answers client (client.runRename moment request value) request.id := by
  unfold runRename
  simp only
  split
  · exact .of_sendActionResult client _ _ _ _ _ _ rfl rfl rfl rfl
  · exact .of_sendError client _ _ _ rfl rfl rfl rfl

/-- An arm ends in one of these ways. -/
inductive DispatchCase (client : WsClient) (request : ActionRequestFrame) :
    Option ConsentAnswer → WsClient × Outcome → Prop where
  | answered (decision : Option ConsentAnswer) (after : WsClient)
      (answers : Answers client after request.id) :
      DispatchCase client request decision (after, .answered)
  | remembered (answer : ConsentAnswer) (capability path : String) (after : WsClient)
      (target : gateTarget request = some (capability, path)) (yes : answer.approved = true)
      (keeps : answer.remember = true)
      (answers : Answers (client.remembered path answer) after request.id) :
      DispatchCase client request (some answer) (after, .answered)
  | parks (prompt : ConsentPrompt) (own : prompt.actionId = request.id)
      (arm : Arm.ofCapability request.capability ≠ .fsDelete)
      (raised : (client.refusal request).isSome = false → client.raises request = some prompt) :
      DispatchCase client request none (client.raisePrompt request prompt, .awaitingConsent)
  | deletes (prompt : ConsentPrompt) (own : prompt.actionId = request.id)
      (arm : Arm.ofCapability request.capability = .fsDelete)
      (raised : (client.refusal request).isSome = false → client.raises request = some prompt) :
      DispatchCase client request none ((client.raisePrompt request prompt).sendError request.id
        DaemonError.awaitingConsent.text, .answered)

/-- The prompt of a gated request is the one the path gate raises. -/
theorem raises_of_target (client : WsClient) (request : ActionRequestFrame)
    (capability path : String) (target : gateTarget request = some (capability, path))
    (holds : client.gate.allows capability = true)
    (outside : client.gate.checkPathReal client.fs capability (.ofText path) ≠ .allow)
    (clear : (client.refusal request).isSome = false) :
    client.raises request = some (pathPrompt request capability path) := by
  have other : Arm.ofCapability request.capability ≠ .fsRestore := by
    intro restore
    simp [gateTarget, restore] at target
  simp [raises, clear, other, target, holds, outside]

/-- An arm behind the path gate ends in one of the cases of an arm. -/
theorem gated_case (client : WsClient) (request : ActionRequestFrame) (capability path : String)
    (decision : Option ConsentAnswer) (run : CapabilityGate → WsClient → WsClient)
    (target : gateTarget request = some (capability, path))
    (arm : Arm.ofCapability request.capability ≠ .fsDelete)
    (answers : ∀ gate held, Answers held (run gate held) request.id) :
    DispatchCase client request decision (client.gated request capability path decision run) := by
  have outcome := client.pathGate_case request capability path decision
  unfold gated
  generalize client.pathGate request capability path decision = result at outcome
  cases outcome with
  | missing _ _ => exact .answered _ _ (.of_sendError client client _ _ rfl rfl rfl rfl)
  | refused _ _ _ _ => exact .answered _ _ (.of_sendError client client _ _ rfl rfl rfl rfl)
  | allowed _ _ => exact .answered _ _ (answers _ client)
  | prompted holds outside =>
      exact .parks _ rfl arm (client.raises_of_target request capability path target holds outside)
  | approved answer holds outside yes =>
      cases keeps : answer.remember with
      | true => exact .remembered answer capability path _ target yes keeps (answers _ _)
      | false =>
          have same : client.remembered path answer = client := by simp [remembered, keeps]
          rw [same]
          exact .answered _ _ (answers _ client)

theorem deleted (host : Host) (moment : Moment) (request : ActionRequestFrame)
    (value : FsDeleteRequest) (gate : CapabilityGate) (held : WsClient) :
    Answers held (runDelete host moment request value gate held) request.id :=
  .of_mutate held host moment request value.path _ fun _ gate consent parked sent =>
    .of_reply held _ moment request _ gate consent parked sent

/-- The arm of a delete ends in one of the cases of an arm. -/
theorem deleteArm_case (client : WsClient) (host : Host) (moment : Moment)
    (request : ActionRequestFrame) (value : FsDeleteRequest) (decision : Option ConsentAnswer)
    (target : gateTarget request = some ("desktop.fs.delete", value.path))
    (arm : Arm.ofCapability request.capability = .fsDelete) :
    DispatchCase client request decision
      (client.deleteArm host moment request value decision) := by
  have answers := deleted host moment request value
  have outcome := client.pathGate_case request "desktop.fs.delete" value.path decision
  unfold deleteArm
  generalize client.pathGate request "desktop.fs.delete" value.path decision = result at outcome
  cases outcome with
  | missing _ _ => exact .answered _ _ (.of_sendError client client _ _ rfl rfl rfl rfl)
  | refused _ _ _ _ => exact .answered _ _ (.of_sendError client client _ _ rfl rfl rfl rfl)
  | allowed _ _ => exact .answered _ _ (answers _ client)
  | prompted holds outside =>
      exact .deletes _ rfl arm (client.raises_of_target request _ _ target holds outside)
  | approved answer holds outside yes =>
      cases keeps : answer.remember with
      | true => exact .remembered answer _ value.path _ target yes keeps (answers _ _)
      | false =>
          have same : client.remembered value.path answer = client := by simp [remembered, keeps]
          rw [same]
          exact .answered _ _ (answers _ client)

/-- A restore ends in one of these ways. -/
inductive RestoreCase (client : WsClient) (host : Host) (moment : Moment)
    (request : ActionRequestFrame) : Option ConsentAnswer → WsClient × Outcome → Prop where
  | rejected (decision : Option ConsentAnswer) (reason : String) :
      RestoreCase client host moment request decision
        (client.sendError request.id reason, .answered)
  | restored (decision : Option ConsentAnswer) (store : CheckpointStore) (entry : CheckpointEntry)
      (authorised : client.gate.allows "desktop.fs.restore" = true ∨
        ∃ answer, decision = some answer ∧ answer.approved = true) :
      RestoreCase client host moment request decision
        (client.runRestore host moment request store entry, .answered)
  | prompted (entry : CheckpointEntry)
      (lacking : client.gate.allows "desktop.fs.restore" = false)
      (found : client.restoreEntry request = some entry) :
      RestoreCase client host moment request none
        (client.raisePrompt request (restorePrompt request entry), .awaitingConsent)

/-- Every result of a restore is one of its cases. -/
theorem restoreArm_case (client : WsClient) (host : Host) (moment : Moment)
    (request : ActionRequestFrame) (decision : Option ConsentAnswer) :
    RestoreCase client host moment request decision
      (client.restoreArm host moment request decision) := by
  unfold restoreArm
  by_cases zero : restoreTs request = 0
  · simp only [zero, if_true]
    exact .rejected _ _
  · simp only [zero, if_false]
    cases stores : client.checkpoints with
    | none => exact .rejected _ _
    | some store =>
        simp only
        cases found : store.list.find? (·.ts = restoreTs request) with
        | none => exact .rejected _ _
        | some entry =>
            simp only
            unfold restoreDecision
            cases granted : client.gate.allows "desktop.fs.restore" with
            | true => exact .restored _ store entry (.inl granted)
            | false =>
                cases decision with
                | none =>
                    exact .prompted entry granted (by simp [restoreEntry, zero, stores, found])
                | some answer =>
                    cases said : answer.approved with
                    | true =>
                        simpa [said] using
                          RestoreCase.restored (some answer) store entry (.inr ⟨answer, rfl, said⟩)
                    | false => simpa [said] using RestoreCase.rejected (some answer) _

/-- A prompt of a restore parks its request. -/
theorem restoreArm_dispatch (client : WsClient) (host : Host) (moment : Moment)
    (request : ActionRequestFrame) (decision : Option ConsentAnswer)
    (arm : Arm.ofCapability request.capability = .fsRestore) :
    DispatchCase client request decision (client.restoreArm host moment request decision) := by
  have outcome := client.restoreArm_case host moment request decision
  generalize client.restoreArm host moment request decision = result at outcome
  cases outcome with
  | rejected _ reason => exact .answered _ _ (.of_sendError client client _ _ rfl rfl rfl rfl)
  | restored _ store entry _ =>
      exact .answered _ _ (.of_runRestore client host moment request store entry)
  | prompted entry lacking found =>
      refine .parks _ rfl (by simp [arm]) fun clear => ?_
      simp [raises, clear, arm, lacking, found]

/-- The arm of a request with a path runs its operation behind the path gate. -/
theorem dispatch_gated (client : WsClient) (host : Host) (moment : Moment)
    (request : ActionRequestFrame) (decision : Option ConsentAnswer) {capability path : String}
    (target : gateTarget request = some (capability, path))
    (other : Arm.ofCapability request.capability ≠ .fsDelete) :
    ∃ run : CapabilityGate → WsClient → WsClient,
      (∀ gate held, Answers held (run gate held) request.id) ∧
        client.dispatch host moment request decision =
          client.gated request capability path decision run := by
  unfold gateTarget at target
  unfold dispatch
  cases arm : Arm.ofCapability request.capability with
  | fsRead =>
      simp only [arm, Option.map_eq_some_iff] at target
      obtain ⟨value, parsed, same⟩ := target
      cases same
      simp only [parsed]
      exact ⟨runRead host moment request value,
        fun gate held => .of_reply held held moment request _ rfl rfl rfl rfl, rfl⟩
  | fsPatch =>
      simp only [arm, Option.map_eq_some_iff] at target
      obtain ⟨value, parsed, same⟩ := target
      cases same
      simp only [parsed]
      exact ⟨runPatch host moment request value,
        fun gate held => .of_mutate held host moment request value.path _ fun inner gate consent parked sent =>
          .of_replyVerified held _ moment request _ _ gate consent parked sent, rfl⟩
  | fsWrite =>
      simp only [arm, Option.map_eq_some_iff] at target
      obtain ⟨value, parsed, same⟩ := target
      cases same
      simp only [parsed]
      exact ⟨runWrite host moment request value,
        fun gate held => .of_mutate held host moment request value.path _ fun inner gate consent parked sent =>
          .of_replyVerified held _ moment request _ _ gate consent parked sent, rfl⟩
  | fsDelete => exact absurd arm other
  | checkpointList =>
      simp only [arm] at target
      cases target
      refine ⟨fun _ held => held.runCheckpointList moment request, fun gate held => ?_, rfl⟩
      unfold runCheckpointList
      exact .of_reply held held moment request _ rfl rfl rfl rfl
  | fsVerify =>
      simp only [arm, Option.map_eq_some_iff] at target
      obtain ⟨value, parsed, same⟩ := target
      cases same
      simp only [parsed]
      exact ⟨fun _ held => runVerify moment request value held,
        fun gate held => .of_sendActionResult held _ _ _ _ _ _ rfl rfl rfl rfl, rfl⟩
  | fsList =>
      simp only [arm, Option.bind_eq_some_iff] at target
      obtain ⟨value, parsed, same⟩ := target
      by_cases bare : Text.trim (value.path.getD "") = ""
      · simp [bare] at same
      · simp only [bare, if_false] at same
        cases same
        simp only [parsed, bare, if_false]
        exact ⟨fun _ held => runList host moment request value held,
          fun gate held => .of_reply held held moment request _ rfl rfl rfl rfl, rfl⟩
  | fsWatch =>
      simp only [arm, Option.map_eq_some_iff] at target
      obtain ⟨value, parsed, same⟩ := target
      cases same
      simp only [parsed]
      exact ⟨fun _ held => runWatch moment request value held,
        fun gate held => .of_reply held held moment request _ rfl rfl rfl rfl, rfl⟩
  | fsRestore | astEdit | lspRename | engine | notImplemented => simp [arm] at target

/-- The arm of a delete with a path runs behind the path gate. -/
theorem dispatch_delete (client : WsClient) (host : Host) (moment : Moment)
    (request : ActionRequestFrame) (decision : Option ConsentAnswer) {capability path : String}
    (target : gateTarget request = some (capability, path))
    (arm : Arm.ofCapability request.capability = .fsDelete) :
    capability = "desktop.fs.delete" ∧ ∃ value : FsDeleteRequest, value.path = path ∧
      client.dispatch host moment request decision =
        client.deleteArm host moment request value decision := by
  simp only [gateTarget, arm, Option.map_eq_some_iff] at target
  obtain ⟨value, parsed, same⟩ := target
  cases same
  exact ⟨rfl, value, rfl, by simp [dispatch, arm, parsed]⟩

/-- Every arm ends in one of its cases. -/
theorem dispatch_case (client : WsClient) (host : Host) (moment : Moment)
    (request : ActionRequestFrame) (decision : Option ConsentAnswer) :
    DispatchCase client request decision (client.dispatch host moment request decision) := by
  have bad : ∀ name, DispatchCase client request decision
      (client.badParams host request name) := fun name =>
    .answered _ _ (.of_sendError client client _ _ rfl rfl rfl rfl)
  cases target : gateTarget request with
  | some pair =>
      obtain ⟨capability, path⟩ := pair
      by_cases arm : Arm.ofCapability request.capability = .fsDelete
      · obtain ⟨rfl, value, rfl, delete⟩ :=
          client.dispatch_delete host moment request decision target arm
        rw [delete]
        exact client.deleteArm_case host moment request value decision target arm
      · obtain ⟨run, answers, gated⟩ := client.dispatch_gated host moment request decision target arm
        rw [gated]
        exact client.gated_case request capability path decision run target arm answers
  | none =>
      unfold gateTarget at target
      unfold dispatch
      cases arm : Arm.ofCapability request.capability with
      | fsRead | fsPatch | fsWrite | fsDelete | fsVerify | fsWatch =>
          simp only [arm, Option.map_eq_none_iff] at target
          simp only [target]
          exact bad _
      | astEdit =>
          cases AstEditRequest.ofParams request.params with
          | none => exact bad _
          | some value =>
              exact .answered _ _ (.of_mutate client host moment request value.path _
                fun inner gate consent parked sent =>
                  .of_replyVerified client _ moment request _ _ gate consent parked sent)
      | lspRename =>
          cases LspRenameRequest.ofParams request.params with
          | none => exact bad _
          | some value => exact .answered _ _ (.of_runRename client moment request value)
      | fsRestore => exact client.restoreArm_dispatch host moment request decision arm
      | checkpointList => simp [arm] at target
      | fsList =>
          cases parsed : FsListRequest.ofParams request.params with
          | none => exact bad _
          | some value =>
              simp only [arm, parsed, Option.bind_some] at target
              by_cases bare : Text.trim (value.path.getD "") = ""
              · simp only [bare, if_true]
                exact .answered _ _ (.of_reply client client moment request _ rfl rfl rfl rfl)
              · simp [bare] at target
      | engine => exact .answered _ _ (.of_runEngine client moment request)
      | notImplemented => exact .answered _ _ (.of_sendError client client _ _ rfl rfl rfl rfl)

/-- An action ends in one of these ways. Only a first run raises a prompt, and a delete answers
although its prompt is on screen. -/
inductive ActionCase (client : WsClient) (moment : Moment) (request : ActionRequestFrame) :
    Option ConsentAnswer → WsClient → Prop where
  | answered (decision : Option ConsentAnswer) (after : WsClient)
      (answers : Answers client after request.id) : ActionCase client moment request decision after
  | remembered (answer : ConsentAnswer) (capability path : String) (after : WsClient)
      (target : gateTarget request = some (capability, path)) (yes : answer.approved = true)
      (keeps : answer.remember = true)
      (answers : Answers (client.remembered path answer) after request.id) :
      ActionCase client moment request (some answer) after
  | parks (prompt : ConsentPrompt) (own : prompt.actionId = request.id)
      (arm : Arm.ofCapability request.capability ≠ .fsDelete)
      (raised : client.raises request = some prompt) :
      ActionCase client moment request none
        ((client.raisePrompt request prompt).park moment request)
  | deletes (prompt : ConsentPrompt) (own : prompt.actionId = request.id)
      (arm : Arm.ofCapability request.capability = .fsDelete)
      (raised : client.raises request = some prompt) :
      ActionCase client moment request none ((client.raisePrompt request prompt).sendError
        request.id DaemonError.awaitingConsent.text)

/-- Every action ends in one of its cases. -/
theorem handleAction_case (client : WsClient) (host : Host) (moment : Moment)
    (request : ActionRequestFrame) (decision : Option ConsentAnswer) :
    ActionCase client moment request decision
      (client.handleAction host moment request decision) := by
  have outcome := client.dispatch_case host moment request decision
  unfold handleAction
  cases refused : client.refusal request with
  | some reason => exact .answered _ _ (.of_sendError client client _ _ rfl rfl rfl rfl)
  | none =>
      have clear : (client.refusal request).isSome = false := by simp [refused]
      simp only
      generalize client.dispatch host moment request decision = result at outcome
      cases outcome with
      | answered _ after answers => exact .answered _ _ answers
      | remembered answer capability path after target yes keeps answers =>
          exact .remembered answer capability path after target yes keeps answers
      | parks prompt own arm raised => exact .parks prompt own arm (raised clear)
      | deletes prompt own arm raised => exact .deletes prompt own arm (raised clear)

end WsClient

end Daemon
