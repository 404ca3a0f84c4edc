import SynthHiresBridge.Proof.Arms

namespace Daemon

open Posix

/-- The server sets its flag on a request. -/
def ActionRequestFrame.withSkip (request : ActionRequestFrame) (skip : Bool) :
    ActionRequestFrame :=
  { request with skipConsentPrompt := skip }

@[simp] theorem ActionRequestFrame.withSkip_capability (request : ActionRequestFrame)
    (skip : Bool) : (request.withSkip skip).capability = request.capability := rfl

@[simp] theorem ActionRequestFrame.withSkip_params (request : ActionRequestFrame)
    (skip : Bool) : (request.withSkip skip).params = request.params := rfl

namespace FsOps

/-- A read looks at its gate through the second check only. -/
theorem readAnnotated_congr (host : Host) (first second : CapabilityGate) (fs : FileSystem)
    (req : FsReadRequest) (annotate : Bool)
    (same : gateForPath first fs "desktop.fs.read" req.path =
      gateForPath second fs "desktop.fs.read" req.path) :
    readAnnotated host first fs req annotate = readAnnotated host second fs req annotate := by
  rw [readAnnotated, readAnnotated, read, read, same]

theorem write_congr (moment : Moment) (first second : CapabilityGate) (fs : FileSystem)
    (req : FsWriteRequest)
    (same : gateForPath first fs "desktop.fs.write" req.path =
      gateForPath second fs "desktop.fs.write" req.path) :
    write moment first fs req = write moment second fs req := by
  rw [write, write, same]

theorem patch_congr (host : Host) (moment : Moment) (first second : CapabilityGate)
    (fs : FileSystem) (req : FsPatchRequest)
    (same : gateForPath first fs "desktop.fs.write" req.path =
      gateForPath second fs "desktop.fs.write" req.path) :
    patch host moment first fs req = patch host moment second fs req := by
  rw [patch, patch, same]

theorem delete_congr (first second : CapabilityGate) (fs : FileSystem) (req : FsDeleteRequest)
    (same : gateForPath first fs "desktop.fs.delete" req.path =
      gateForPath second fs "desktop.fs.delete" req.path) :
    delete first fs req = delete second fs req := by
  rw [delete, delete, same]

/-- An allowed path passes the second check under a longer gate as well. -/
theorem gateForPath_withAdditionalPath (gate : CapabilityGate) (fs : FileSystem)
    (capability path : String)
    (allowed : gate.checkPathReal fs capability (.ofText path) = .allow) :
    gateForPath (gate.withAdditionalPath (.ofText path)) fs capability path =
      gateForPath gate fs capability path := by
  rw [gateForPath_of_checkPathReal gate fs capability path allowed]
  exact gateForPath_of_checkPathReal _ fs capability path
    (gate.checkPathReal_withAdditionalPath fs capability _ _ allowed)

end FsOps

namespace WsClient

/-- Two clients show the same effect when they differ at most in the flag of a parked request. -/
structure SameEffect (first second : WsClient) : Prop where
  gate : first.gate = second.gate
  fs : first.fs = second.fs
  checkpoints : first.checkpoints = second.checkpoints
  sent : first.sent = second.sent
  notifier : first.consent.notifier = second.consent.notifier
  prompts : ∀ id, (first.consent.pending.lookup id).map PendingPrompt.prompt =
    (second.consent.pending.lookup id).map PendingPrompt.prompt
  parked : ∀ id, (first.parked.lookup id).isSome = (second.parked.lookup id).isSome

theorem SameEffect.refl (client : WsClient) : SameEffect client client :=
  ⟨rfl, rfl, rfl, rfl, rfl, fun _ => rfl, fun _ => rfl⟩

/-- Two runs of an arm agree on the effect and on the outcome. -/
def Agree (first second : WsClient × Outcome) : Prop :=
  SameEffect first.1 second.1 ∧ first.2 = second.2

theorem Agree.refl (result : WsClient × Outcome) : Agree result result :=
  ⟨.refl result.1, rfl⟩

theorem Agree.of_eq {first second : WsClient × Outcome} (same : first = second) :
    Agree first second := same ▸ .refl first

@[simp] theorem checkpointBefore_fs (client : WsClient) (host : Host) (moment : Moment)
    (request : ActionRequestFrame) (path : String) :
    (client.checkpointBefore host moment request path).2.fs = client.fs := by
  unfold checkpointBefore
  split
  · rfl
  · split <;> rfl

/-- A mutation runs on the disk it started with. -/
theorem mutate_congr (client : WsClient) (host : Host) (moment : Moment)
    (request : ActionRequestFrame) (path : String) (first second : WsClient → WsClient)
    (same : ∀ held : WsClient, held.fs = client.fs → first held = second held) :
    client.mutate host moment request path first =
      client.mutate host moment request path second := by
  have kept := client.checkpointBefore_fs host moment request path
  unfold mutate
  cases captured : client.checkpointBefore host moment request path with
  | mk outcome held =>
      rw [captured] at kept
      cases outcome with
      | error reason => rfl
      | ok _ => exact same held kept

/-- Two prompts of one request differ in the flag that their request remembers. -/
theorem raisePrompt_withSkip (client : WsClient) (request : ActionRequestFrame)
    (prompt : ConsentPrompt) :
    SameEffect (client.raisePrompt (request.withSkip true) prompt)
      (client.raisePrompt (request.withSkip false) prompt) := by
  refine ⟨rfl, rfl, rfl, rfl, rfl, fun id => ?_, fun _ => rfl⟩
  simp only [raisePrompt, send, ConsentBroker.ask_lookup]
  split <;> rfl

theorem SameEffect.sendError {first second : WsClient} (same : SameEffect first second)
    (id error : String) : SameEffect (first.sendError id error) (second.sendError id error) := by
  refine ⟨same.gate, same.fs, same.checkpoints, ?_, same.notifier, same.prompts, same.parked⟩
  simp only [WsClient.sendError, sendActionResult, send, same.sent]

/-- What follows the path gate does not see the flag when it runs alike under both gates and after
both prompts. -/
theorem pathGate_withSkip (client : WsClient) (request : ActionRequestFrame)
    (capability path : String) (decision : Option ConsentAnswer)
    (finish : Except DaemonError CapabilityGate × WsClient → WsClient × Outcome)
    (alike : client.gate.checkPathReal client.fs capability (.ofText path) = .allow →
      finish (.ok (client.gate.withAdditionalPath (.ofText path)), client) =
        finish (.ok client.gate, client))
    (asked : ∀ first second : WsClient, SameEffect first second →
      Agree (finish (.error .awaitingConsent, first)) (finish (.error .awaitingConsent, second))) :
    Agree (finish (client.pathGate (request.withSkip true) capability path decision))
      (finish (client.pathGate (request.withSkip false) capability path decision)) := by
  unfold pathGate
  by_cases holds : client.gate.allows capability = true
  · by_cases granted : client.gate.checkPathReal client.fs capability (.ofText path) = .allow
    · simp only [holds, granted, ActionRequestFrame.withSkip, Bool.not_true, Bool.false_eq_true,
        and_self, if_false, if_true, alike granted, false_and]
      exact .refl _
    · simp only [holds, granted, Bool.not_true, Bool.false_eq_true, and_false, if_false]
      cases decision with
      | some answer => exact .refl _
      | none => exact asked _ _ (client.raisePrompt_withSkip request _)
  · rw [Bool.not_eq_true] at holds
    simp only [holds, Bool.not_false, if_true]
    exact .refl _

/-- What an arm makes of the result of the path gate. -/
def gatedOutcome (request : ActionRequestFrame) (run : CapabilityGate → WsClient → WsClient) :
    Except DaemonError CapabilityGate × WsClient → WsClient × Outcome
  | (.ok gate, client) => (run gate client, .answered)
  | (.error .awaitingConsent, client) => (client, .awaitingConsent)
  | (.error error, client) => (client.sendError request.id error.text, .answered)

/-- What the arm of a delete makes of the result of the path gate. -/
def deleteOutcome (host : Host) (moment : Moment) (request : ActionRequestFrame)
    (value : FsDeleteRequest) :
    Except DaemonError CapabilityGate × WsClient → WsClient × Outcome
  | (.ok gate, client) => (client.runDelete host moment request value gate, .answered)
  | (.error error, client) => (client.sendError request.id error.text, .answered)

/-- The flag changes nothing in an arm behind the path gate. -/
theorem gated_withSkip (client : WsClient) (request : ActionRequestFrame)
    (capability path : String) (decision : Option ConsentAnswer)
    (run : CapabilityGate → WsClient → WsClient)
    (alike : client.gate.checkPathReal client.fs capability (.ofText path) = .allow →
      run (client.gate.withAdditionalPath (.ofText path)) client = run client.gate client) :
    Agree (client.gated (request.withSkip true) capability path decision run)
      (client.gated (request.withSkip false) capability path decision run) :=
  client.pathGate_withSkip request capability path decision
    (gatedOutcome request run) (fun granted => by simp only [gatedOutcome, alike granted])
    (fun _ _ same => ⟨same, rfl⟩)

/-- The flag changes nothing in the arm of a delete. -/
theorem deleteArm_withSkip (client : WsClient) (host : Host) (moment : Moment)
    (request : ActionRequestFrame) (value : FsDeleteRequest) (decision : Option ConsentAnswer) :
    Agree (client.deleteArm host moment (request.withSkip true) value decision)
      (client.deleteArm host moment (request.withSkip false) value decision) := by
  refine client.pathGate_withSkip request "desktop.fs.delete" value.path decision
    (deleteOutcome host moment request value) ?_ ?_
  · intro granted
    refine congrArg (·, Outcome.answered)
      (mutate_congr client host moment request value.path _ _ ?_)
    intro held disk
    rw [FsOps.delete_congr _ client.gate held.fs value]
    rw [disk]
    exact FsOps.gateForPath_withAdditionalPath _ _ _ _ granted
  · exact fun _ _ same => ⟨same.sendError request.id _, rfl⟩

/-- The flag changes nothing in the arm of a restore. -/
theorem restoreArm_withSkip (client : WsClient) (host : Host) (moment : Moment)
    (request : ActionRequestFrame) (decision : Option ConsentAnswer) :
    Agree (client.restoreArm host moment (request.withSkip true) decision)
      (client.restoreArm host moment (request.withSkip false) decision) := by
  have asked : ∀ skip, restoreTs (request.withSkip skip) = restoreTs request := fun _ => rfl
  unfold restoreArm
  simp only [asked]
  by_cases zero : restoreTs request = 0
  · simp only [zero, if_true]
    exact .refl _
  · simp only [zero, if_false]
    cases client.checkpoints with
    | none => exact .refl _
    | some store =>
        simp only
        cases store.list.find? (·.ts = restoreTs request) with
        | none => exact .refl _
        | some entry =>
            simp only
            cases client.restoreDecision decision with
            | none => exact ⟨client.raisePrompt_withSkip request _, rfl⟩
            | some answer => exact .refl _

section Replies

variable (client : WsClient) (host : Host) (moment : Moment) (request : ActionRequestFrame)
  (skip : Bool)

theorem runCheckpointList_withSkip :
    client.runCheckpointList moment (request.withSkip skip) =
      client.runCheckpointList moment request := rfl

theorem runVerify_withSkip (value : FsVerifyRequest) :
    client.runVerify moment (request.withSkip skip) value =
      client.runVerify moment request value := rfl

theorem runList_withSkip (value : FsListRequest) :
    client.runList host moment (request.withSkip skip) value =
      client.runList host moment request value := rfl

theorem runWatch_withSkip (value : FsWatchRequest) :
    client.runWatch moment (request.withSkip skip) value =
      client.runWatch moment request value := rfl

end Replies

/-- The flag changes nothing in any arm. -/
theorem dispatch_withSkip (client : WsClient) (host : Host) (moment : Moment)
    (request : ActionRequestFrame) (decision : Option ConsentAnswer) :
    Agree (client.dispatch host moment (request.withSkip true) decision)
      (client.dispatch host moment (request.withSkip false) decision) := by
  unfold dispatch
  simp only [ActionRequestFrame.withSkip_capability, ActionRequestFrame.withSkip_params]
  cases Arm.ofCapability request.capability with
  | fsRead =>
      cases FsReadRequest.ofParams request.params with
      | none => exact .refl _
      | some value =>
          refine client.gated_withSkip request "desktop.fs.read" value.path decision
            (runRead host moment request value) fun granted => ?_
          rw [runRead, runRead, FsOps.readAnnotated_congr host _ client.gate _ _ _
            (FsOps.gateForPath_withAdditionalPath _ _ _ _ granted)]
  | fsPatch =>
      cases FsPatchRequest.ofParams request.params with
      | none => exact .refl _
      | some value =>
          refine client.gated_withSkip request "desktop.fs.write" value.path decision
            (runPatch host moment request value) fun granted => ?_
          refine mutate_congr client host moment request value.path _ _ fun held disk => ?_
          rw [FsOps.patch_congr host moment _ client.gate held.fs value
            (disk ▸ FsOps.gateForPath_withAdditionalPath _ _ _ _ granted)]
  | fsWrite =>
      cases FsWriteRequest.ofParams request.params with
      | none => exact .refl _
      | some value =>
          refine client.gated_withSkip request "desktop.fs.write" value.path decision
            (runWrite host moment request value) fun granted => ?_
          refine mutate_congr client host moment request value.path _ _ fun held disk => ?_
          rw [FsOps.write_congr moment _ client.gate held.fs value
            (disk ▸ FsOps.gateForPath_withAdditionalPath _ _ _ _ granted)]
  | fsDelete =>
      cases FsDeleteRequest.ofParams request.params with
      | none => exact .refl _
      | some value => exact client.deleteArm_withSkip host moment request value decision
  | fsRestore => exact client.restoreArm_withSkip host moment request decision
  | checkpointList =>
      simp only [runCheckpointList_withSkip]
      exact client.gated_withSkip request "desktop.fs.read" "" decision _ fun _ => rfl
  | fsVerify =>
      cases FsVerifyRequest.ofParams request.params with
      | none => exact .refl _
      | some value =>
          simp only [runVerify_withSkip]
          exact client.gated_withSkip request "desktop.fs.verify" value.path decision _
            fun _ => rfl
  | fsList =>
      cases FsListRequest.ofParams request.params with
      | none => exact .refl _
      | some value =>
          simp only [runList_withSkip]
          split
          · exact .refl _
          · exact client.gated_withSkip request "desktop.fs.list"
              (Text.trim (value.path.getD "")) decision _ fun _ => rfl
  | fsWatch =>
      cases FsWatchRequest.ofParams request.params with
      | none => exact .refl _
      | some value =>
          simp only [runWatch_withSkip]
          exact client.gated_withSkip request "desktop.fs.watch" value.path decision _
            fun _ => rfl
  | astEdit => exact .of_eq (by cases AstEditRequest.ofParams request.params <;> rfl)
  | lspRename => exact .of_eq (by cases LspRenameRequest.ofParams request.params <;> rfl)
  | engine => exact .refl _
  | notImplemented => exact .refl _

theorem refusal_withSkip (client : WsClient) (request : ActionRequestFrame) (skip : Bool) :
    client.refusal (request.withSkip skip) = client.refusal request := rfl

theorem SameEffect.park {first second : WsClient} (same : SameEffect first second)
    (moment : Moment) (request : ActionRequestFrame) :
    SameEffect (first.park moment (request.withSkip true))
      (second.park moment (request.withSkip false)) := by
  refine ⟨same.gate, same.fs, same.checkpoints, same.sent, same.notifier, same.prompts, ?_⟩
  intro id
  by_cases own : id = request.id
  · subst own
    simp [WsClient.park, ActionRequestFrame.withSkip]
  · simp [WsClient.park, ActionRequestFrame.withSkip, own, same.parked id]

/-- The flag changes nothing in an action. -/
theorem handleAction_withSkip (client : WsClient) (host : Host) (moment : Moment)
    (request : ActionRequestFrame) (decision : Option ConsentAnswer) :
    SameEffect (client.handleAction host moment (request.withSkip true) decision)
      (client.handleAction host moment (request.withSkip false) decision) := by
  have arms := client.dispatch_withSkip host moment request decision
  unfold handleAction
  rw [refusal_withSkip, refusal_withSkip]
  cases client.refusal request with
  | some reason => exact .refl _
  | none =>
      simp only
      generalize client.dispatch host moment (request.withSkip true) decision = first at arms ⊢
      generalize client.dispatch host moment (request.withSkip false) decision = second at arms ⊢
      obtain ⟨first, outcome⟩ := first
      obtain ⟨second, same⟩ := second
      obtain ⟨effect, rfl⟩ := arms
      cases outcome with
      | answered => exact effect
      | awaitingConsent => exact effect.park moment request

/-- A restore without its grant and without an approval is refused or parked. -/
theorem restore_stopped (client : WsClient) (host : Host) (moment : Moment)
    (request : ActionRequestFrame) (decision : Option ConsentAnswer)
    (own : request.capability = "desktop.fs.restore")
    (lacking : client.gate.allows "desktop.fs.restore" = false)
    (silent : ∀ answer, decision = some answer → answer.approved = false) :
    (∃ reason, client.handleAction host moment request decision =
      client.sendError request.id reason) ∨
    ∃ prompt, client.handleAction host moment request decision =
      (client.raisePrompt request prompt).park moment request := by
  have arm : Arm.ofCapability request.capability = .fsRestore := by rw [own]; rfl
  have outcome := client.restoreArm_case host moment request decision
  unfold handleAction
  cases client.refusal request with
  | some reason => exact .inl ⟨reason, rfl⟩
  | none =>
      simp only [dispatch, arm]
      generalize client.restoreArm host moment request decision = result at outcome
      cases outcome with
      | rejected _ reason => exact .inl ⟨reason, rfl⟩
      | prompted entry _ _ => exact .inr ⟨restorePrompt request entry, rfl⟩
      | restored _ store entry authorised =>
          rcases authorised with granted | ⟨answer, given, yes⟩
          · rw [lacking] at granted
            cases granted
          · rw [silent answer given] at yes
            cases yes

/-- The server's flag never widens access: an action has the same result, the same effect and the
same gate with and without it, and a restore runs only with its grant or an approval. -/
theorem skipConsentPrompt_neverWidens (client : WsClient) (host : Host) (moment : Moment)
    (request : ActionRequestFrame) (decision : Option ConsentAnswer) :
    SameEffect (client.handleAction host moment (request.withSkip true) decision)
      (client.handleAction host moment (request.withSkip false) decision) ∧
    (request.capability = "desktop.fs.restore" →
      client.gate.allows "desktop.fs.restore" = false →
      (∀ answer, decision = some answer → answer.approved = false) →
      (∃ reason, client.handleAction host moment request decision =
        client.sendError request.id reason) ∨
      ∃ prompt, client.handleAction host moment request decision =
        (client.raisePrompt request prompt).park moment request) :=
  ⟨client.handleAction_withSkip host moment request decision,
    client.restore_stopped host moment request decision⟩

end WsClient

end Daemon
