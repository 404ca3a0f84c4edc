import SynthHiresBridge.Transition.Run
import SynthHiresBridge.Proof.Denial
import SynthHiresBridge.Proof.Mutations

namespace Daemon

open Posix Transition

namespace CheckpointStore

/-- A capture took the record of a path, and the store has its entry and its bytes. -/
structure Captured (host : Host) (fs : FileSystem) (store kept : CheckpointStore) (ts : Nat)
    (actionId capability path : String) : Prop where
  taken : kept = (capture host none store fs ts actionId capability path).2
  listed : (record host fs ts actionId capability path).entry ∈ kept.entries
  stored : ∀ bytes, (record host fs ts actionId capability path).bytes = some bytes →
    kept.blobs.lookup ts = some bytes

/-- A capture keeps its own record. -/
theorem Captured.of_capture (host : Host) (fs : FileSystem) (store : CheckpointStore) (ts : Nat)
    (actionId capability path : String) :
    Captured host fs store (capture host none store fs ts actionId capability path).2 ts actionId
      capability path := by
  have named := record_ts host fs ts actionId capability path
  refine ⟨rfl, ?_, ?_⟩
  · rw [capture_eq, enforceLimits_entries, List.mem_filter]
    refine ⟨List.mem_append_right _ (List.mem_singleton_self _), ?_⟩
    rw [named]
    simpa using skip_stays ts _ _
  · intro bytes holds
    rw [capture_eq, enforceLimits_lookup, if_neg (skip_stays ts _ _)]
    have own := add_lookup_own store (record host fs ts actionId capability path) bytes holds
    rwa [named] at own

/-- A store that a capture made differs from the one before. -/
theorem Captured.changes {host : Host} {fs : FileSystem} {store kept : CheckpointStore} {ts : Nat}
    {actionId capability path : String}
    (captured : Captured host fs store kept ts actionId capability path) : kept ≠ store := by
  have changes := store.enforceLimits_add_ne (record host fs ts actionId capability path)
  rw [record_ts] at changes
  rw [captured.taken, capture_eq]
  exact changes

end CheckpointStore

open CheckpointStore

namespace WsClient

/-- An action captured what stood at a path before it. -/
def Captures (host : Host) (before after : WsClient) (moment : Moment)
    (request : ActionRequestFrame) (path : String) : Prop :=
  ∃ store kept, before.checkpoints = some store ∧ after.checkpoints = some kept ∧
    Captured host before.fs store kept moment.captureAt request.id request.capability path

/-- A mutation changes nothing when its capture fails, and else it runs after the capture. -/
theorem mutate_captures (client : WsClient) (host : Host) (moment : Moment)
    (request : ActionRequestFrame) (path : String) (run : WsClient → WsClient)
    (store : CheckpointStore) (configured : client.checkpoints = some store)
    (keeps : ∀ held, (run held).checkpoints = held.checkpoints) :
    (moment.storeFault ≠ none ∧ (client.mutate host moment request path run).fs = client.fs) ∨
      (moment.storeFault = none ∧ ∃ held, held.gate = client.gate ∧ held.fs = client.fs ∧
        client.mutate host moment request path run = run held ∧
        Captures host client (run held) moment request path) := by
  cases fault : moment.storeFault with
  | some reason =>
      refine .inl ⟨by simp, ?_⟩
      simp [mutate, checkpointBefore, configured, fault, capture, sendError, sendActionResult, send]
  | none =>
      refine .inr ⟨rfl, { client with checkpoints := some (capture host none store client.fs
        moment.captureAt request.id request.capability path).2 }, rfl, rfl, ?_, ?_⟩
      · simp [mutate, checkpointBefore, configured, fault, capture_eq]
      · exact ⟨store, _, configured, keeps _, .of_capture ..⟩

/-- The rewrites that an action of an editor performs. -/
def rewrites (client : WsClient) (host : Host) (moment : Moment) (request : ActionRequestFrame) :
    List Rewrite :=
  if (client.refusal request).isSome then []
  else match Arm.ofCapability request.capability with
    | .astEdit => match AstEditRequest.ofParams request.params, moment.storeFault with
        | some value, none => AstOps.rewrites host client.gate client.fs value
        | _, _ => []
    | .lspRename => match LspRenameRequest.ofParams request.params with
        | some value => LspOps.renameRewrites client.gate client.fs value
            (moment.workspaceEdit request.params)
        | none => []
    | _ => []

/-- A changed file is saved when a capture of a path under which it is reached went before the
change, or when it is the fresh sibling that a write left behind. -/
def Saved (host : Host) (before after : WsClient) (moment : Moment) (request : ActionRequestFrame)
    (location : Location) : Prop :=
  moment.storeFault = none ∧ ∃ path, Captures host before after moment request path ∧
    (Reaches before.fs after.fs (.ofText path) location ∨
      before.fs.lookup location = none ∧
        after.fs.entryOf (FsOps.uniqueTmp moment (.ofText path)) = .ok location)

/-- Every file that an action changes has its pre-image. The changes of an editor are those of its
rewrites, and each one is at the captured path itself. -/
def Preimaged (host : Host) (client : WsClient) (moment : Moment) (request : ActionRequestFrame)
    (decision : Option ConsentAnswer) : Prop :=
  let after := client.handleAction host moment request decision
  match Arm.ofCapability request.capability with
  | .fsWrite | .fsPatch | .fsDelete =>
      ∀ location, FileSystem.FileChanged client.fs after.fs location →
        Saved host client after moment request location
  | .astEdit | .lspRename =>
      Linked client.fs after.fs (client.rewrites host moment request) ∧
        ∀ rewrite ∈ client.rewrites host moment request,
          ∀ location, FileSystem.FileChanged rewrite.before rewrite.after location →
            moment.storeFault = none ∧ ∃ path, Captures host client after moment request path ∧
              rewrite.path = .ofText path ∧ rewrite.before.entryOf (.ofText path) = .ok location
  | _ => True

/-- A structural edit must not lose a file under its fixed sibling name, and a rename must not change
any file. -/
def Covered (host : Host) (client : WsClient) (moment : Moment) (request : ActionRequestFrame) :
    Prop :=
  match Arm.ofCapability request.capability with
  | .astEdit => ∀ rewrite ∈ client.rewrites host moment request, rewrite.Idle ∨ rewrite.Clear
  | .lspRename => ∀ rewrite ∈ client.rewrites host moment request,
      rewrite.Idle ∨ rewrite.Clear ∧ rewrite.Settled
  | _ => True

/-- A write, a patch and a delete change files under their captured path. -/
theorem fileOp_preimaged (client : WsClient) (host : Host) (moment : Moment)
    (request : ActionRequestFrame) (decision : Option ConsentAnswer)
    (clear : client.refusal request = none) (store : CheckpointStore)
    (configured : client.checkpoints = some store) (op : FileOp)
    (asked : FileOp.ofRequest request = some op) (location : Location)
    (changed : FileSystem.FileChanged client.fs
      (client.handleAction host moment request decision).fs location) :
    Saved host client (client.handleAction host moment request decision) moment request
      location := by
  have follows := client.follows_fileOp host moment request decision clear op asked
  generalize client.handleAction host moment request decision = after at changed follows ⊢
  rcases client.pathGate_admits request op.capability op.path decision op.capability_writes with
    ⟨gate, held, passed, disk, -, same, -, -⟩ | ⟨error, held, failed, disk, -, -⟩
  · have ran := follows.passes gate held passed
    rcases held.mutate_captures host moment request op.path _ store (same.trans configured)
        (op.answer_checkpoints host moment request gate) with
      ⟨-, still⟩ | ⟨sound, inner, -, place, done, captures⟩
    · rw [ran, still, disk] at changed
      exact absurd rfl changed.1
    · rw [← done, ← ran] at captures
      have effect : after.fs = (op.run host moment gate client.fs).2 := by
        rw [ran, done, op.answer_fs host moment request gate inner, place, disk]
      refine ⟨sound, op.path, ?_, ?_⟩
      · obtain ⟨old, kept, before, later, captured⟩ := captures
        exact ⟨old, kept, same ▸ before, later, disk ▸ captured⟩
      · have sanctioned := op.run_sanctioned host moment gate client.fs location
        rw [← effect] at sanctioned
        by_cases spare : op.spare moment client.fs after.fs location
        · exact .inr spare
        · exact .inl (sanctioned changed spare).2
  · rw [(follows.stops error held failed).2, disk] at changed
    exact absurd rfl changed.1

section Editors

variable (client : WsClient) (host : Host) (moment : Moment) (request : ActionRequestFrame)
  (decision : Option ConsentAnswer)

/-- An editor that rewrites nothing and leaves the disk alone is covered. -/
theorem idle_preimaged_iff (edits : Arm.ofCapability request.capability = .astEdit ∨
      Arm.ofCapability request.capability = .lspRename)
    (none : client.rewrites host moment request = [])
    (same : (client.handleAction host moment request decision).fs = client.fs) :
    client.Preimaged host moment request decision ↔ client.Covered host moment request := by
  rcases edits with arm | arm <;>
    simp [Preimaged, Covered, arm, none, same, Linked]

/-- An action that is refused before its arm leaves the disk and the store alone. -/
theorem handleAction_stopped (reason : String) (refused : client.refusal request = some reason) :
    (client.handleAction host moment request decision).fs = client.fs ∧
      client.rewrites host moment request = [] := by
  simp [handleAction, refused, rewrites, sendError, sendActionResult, send]

/-- A structural edit that captured its path covers the change of that path alone. -/
theorem astEdit_preimaged_iff (arm : Arm.ofCapability request.capability = .astEdit)
    (store : CheckpointStore) (configured : client.checkpoints = some store) :
    client.Preimaged host moment request decision ↔ client.Covered host moment request := by
  cases refused : client.refusal request with
  | some reason =>
      obtain ⟨same, none⟩ := client.handleAction_stopped host moment request decision reason refused
      exact client.idle_preimaged_iff host moment request decision (.inl arm) none same
  | none =>
      cases params : AstEditRequest.ofParams request.params with
      | none =>
          refine client.idle_preimaged_iff host moment request decision (.inl arm) ?_ ?_
          · simp [rewrites, refused, arm, params]
          · simp [handleAction, refused, dispatch, arm, params, badParams, sendError,
              sendActionResult, send]
      | some value =>
          have ran := client.handleAction_astEdit host moment request decision refused value arm
            params
          rcases client.mutate_captures host moment request value.path _ store configured
              (answerEdit_checkpoints host moment request value) with
            ⟨faulty, still⟩ | ⟨sound, held, gate, disk, done, captures⟩
          · refine client.idle_preimaged_iff host moment request decision (.inl arm) ?_
              (ran ▸ still)
            obtain ⟨reason, fault⟩ := Option.ne_none_iff_exists'.mp faulty
            simp [rewrites, refused, arm, params, fault]
          · have planned : client.rewrites host moment request =
                AstOps.rewrites host client.gate client.fs value := by
              simp [rewrites, refused, arm, params, sound]
            have effect : (client.handleAction host moment request decision).fs =
                (AstOps.edit host client.gate client.fs value).2 := by
              rw [ran, done, answerEdit_fs, gate, disk]
            rw [← done, ← ran] at captures
            simp only [Preimaged, Covered, arm, planned, effect]
            rw [and_iff_right (AstOps.edit_linked host client.gate client.fs value)]
            refine forall₂_congr fun rewrite member => ?_
            have own := AstOps.rewrites_path host client.gate client.fs value rewrite member
            rw [show rewrite.Idle ∨ rewrite.Clear ↔ rewrite.Confined True by
              rw [rewrite.rewrite_confined_iff, true_or, and_true]]
            refine forall₂_congr fun location changed => ⟨?_, ?_⟩
            · rintro ⟨-, path, -, same, reached⟩
              exact ⟨trivial, same ▸ reached⟩
            · rintro ⟨-, reached⟩
              exact ⟨sound, value.path, captures, own, own ▸ reached⟩

/-- A rename captures nothing, so a file that it changes has no pre-image. -/
theorem lspRename_preimaged_iff (arm : Arm.ofCapability request.capability = .lspRename) :
    client.Preimaged host moment request decision ↔ client.Covered host moment request := by
  cases refused : client.refusal request with
  | some reason =>
      obtain ⟨same, none⟩ := client.handleAction_stopped host moment request decision reason refused
      exact client.idle_preimaged_iff host moment request decision (.inr arm) none same
  | none =>
      cases params : LspRenameRequest.ofParams request.params with
      | none =>
          refine client.idle_preimaged_iff host moment request decision (.inr arm) ?_ ?_
          · simp [rewrites, refused, arm, params]
          · simp [handleAction, refused, dispatch, arm, params, badParams, sendError,
              sendActionResult, send]
      | some value =>
          have ran : client.handleAction host moment request decision =
              client.runRename moment request value := by
            simp only [handleAction, refused, dispatch, arm, params]
          have effect : (client.handleAction host moment request decision).fs =
              (LspOps.rename client.gate client.fs value (moment.workspaceEdit request.params)).2 := by
            rw [ran]
            unfold runRename
            simp only
            split <;> rfl
          have store : (client.handleAction host moment request decision).checkpoints =
              client.checkpoints := by
            rw [ran]
            unfold runRename
            simp only
            split <;> rfl
          have planned : client.rewrites host moment request =
              LspOps.renameRewrites client.gate client.fs value
                (moment.workspaceEdit request.params) := by
            simp [rewrites, refused, arm, params]
          simp only [Preimaged, Covered, arm, planned, effect]
          rw [and_iff_right (LspOps.rename_linked client.gate client.fs value _)]
          refine forall₂_congr fun rewrite member => ?_
          rw [show rewrite.Idle ∨ rewrite.Clear ∧ rewrite.Settled ↔ rewrite.Confined False by
            rw [rewrite.rewrite_confined_iff, false_or]]
          refine forall₂_congr fun location changed => ⟨?_, ?_⟩
          · rintro ⟨-, path, ⟨old, kept, before, after, captured⟩, -⟩
            rw [store, before] at after
            exact absurd (Option.some.inj after).symm captured.changes
          · rintro ⟨never, -⟩
            exact never.elim

end Editors

/-- Every file that an action changes has its pre-image exactly when the action is covered. -/
theorem preimaged_iff (client : WsClient) (host : Host) (moment : Moment)
    (request : ActionRequestFrame) (decision : Option ConsentAnswer) (store : CheckpointStore)
    (configured : client.checkpoints = some store) :
    client.Preimaged host moment request decision ↔ client.Covered host moment request := by
  have files : (Arm.ofCapability request.capability = .fsWrite ∨
      Arm.ofCapability request.capability = .fsPatch ∨
      Arm.ofCapability request.capability = .fsDelete) → ∀ location,
      FileSystem.FileChanged client.fs (client.handleAction host moment request decision).fs
        location → Saved host client (client.handleAction host moment request decision) moment
          request location := by
    intro arm location changed
    cases refused : client.refusal request with
    | some reason =>
        rw [(client.handleAction_stopped host moment request decision reason refused).1] at changed
        exact absurd rfl changed.1
    | none =>
        cases asked : FileOp.ofRequest request with
        | some op =>
            exact client.fileOp_preimaged host moment request decision refused store configured op
              asked location changed
        | none =>
            obtain ⟨name, bad⟩ := client.dispatch_badParams host moment request decision arm asked
            have same : (client.handleAction host moment request decision).fs = client.fs := by
              simp [handleAction, refused, bad, badParams, sendError, sendActionResult, send]
            rw [same] at changed
            exact absurd rfl changed.1
  cases arm : Arm.ofCapability request.capability with
  | fsWrite =>
      simp only [Preimaged, Covered, arm, iff_true]
      exact files (.inl arm)
  | fsPatch =>
      simp only [Preimaged, Covered, arm, iff_true]
      exact files (.inr (.inl arm))
  | fsDelete =>
      simp only [Preimaged, Covered, arm, iff_true]
      exact files (.inr (.inr arm))
  | astEdit => exact client.astEdit_preimaged_iff host moment request decision arm store configured
  | lspRename => exact client.lspRename_preimaged_iff host moment request decision arm
  | _ => simp only [Preimaged, Covered, arm]

section Configured

variable (client : WsClient) (host : Host) (moment : Moment) (request : ActionRequestFrame)
  (decision : Option ConsentAnswer)

theorem pathGate_checkpoints (capability path : String) :
    (client.pathGate request capability path decision).2.checkpoints = client.checkpoints := by
  have outcome := client.pathGate_case request capability path decision
  generalize client.pathGate request capability path decision = result at outcome
  cases outcome with
  | approved answer _ _ _ =>
      simp only [remembered]
      split <;> rfl
  | _ => rfl

theorem reply_checkpoints (result : Except DaemonError Json.Value) :
    (client.reply moment request result).checkpoints = client.checkpoints := by
  unfold reply
  split <;> rfl

/-- An arm behind the path gate keeps the store when its operation does. -/
theorem gated_configured (capability path : String) (run : CapabilityGate → WsClient → WsClient)
    (keeps : ∀ gate held, held.checkpoints.isSome = true → (run gate held).checkpoints.isSome = true)
    (configured : client.checkpoints.isSome = true) :
    (client.gated request capability path decision run).1.checkpoints.isSome = true := by
  have same := client.pathGate_checkpoints request decision capability path
  unfold gated
  cases gated : client.pathGate request capability path decision with
  | mk outcome held =>
      rw [gated] at same
      have still : held.checkpoints.isSome = true := same ▸ configured
      cases outcome with
      | ok gate => exact keeps gate held still
      | error error => cases error <;> exact still

theorem mutate_configured (path : String) (run : WsClient → WsClient)
    (keeps : ∀ held, (run held).checkpoints = held.checkpoints)
    (configured : client.checkpoints.isSome = true) :
    (client.mutate host moment request path run).checkpoints.isSome = true := by
  obtain ⟨store, held⟩ := Option.isSome_iff_exists.mp configured
  simp only [mutate, checkpointBefore, held]
  cases store.capture host moment.storeFault client.fs moment.captureAt request.id
      request.capability path with
  | mk outcome kept =>
      cases outcome with
      | ok entry => simp [keeps]
      | error reason => rfl

theorem restoreArm_configured (configured : client.checkpoints.isSome = true) :
    (client.restoreArm host moment request decision).1.checkpoints.isSome = true := by
  have outcome := client.restoreArm_case host moment request decision
  generalize client.restoreArm host moment request decision = result at outcome
  cases outcome with
  | rejected _ _ => exact configured
  | restored _ store entry _ =>
      unfold runRestore
      simp only
      split <;> rfl
  | prompted _ _ _ => exact configured

theorem deleteArm_configured (value : FsDeleteRequest)
    (configured : client.checkpoints.isSome = true) :
    (client.deleteArm host moment request value decision).1.checkpoints.isSome = true := by
  have same := client.pathGate_checkpoints request decision "desktop.fs.delete" value.path
  unfold deleteArm
  cases gated : client.pathGate request "desktop.fs.delete" value.path decision with
  | mk outcome held =>
      rw [gated] at same
      have still : held.checkpoints.isSome = true := same ▸ configured
      cases outcome with
      | ok gate =>
          exact held.mutate_configured host moment request value.path
            ((FileOp.delete value).answer host moment request gate)
            ((FileOp.delete value).answer_checkpoints host moment request gate) still
      | error error => exact still

/-- An arm keeps the store configured. -/
theorem dispatch_configured (configured : client.checkpoints.isSome = true) :
    (client.dispatch host moment request decision).1.checkpoints.isSome = true := by
  have replies : ∀ held : WsClient, held.checkpoints.isSome = true → ∀ result,
      (held.reply moment request result).checkpoints.isSome = true := by
    intro held still result
    rwa [reply_checkpoints]
  have mutates : ∀ op : FileOp, ∀ gate : CapabilityGate, ∀ held : WsClient,
      held.checkpoints.isSome = true → (held.mutate host moment request op.path
        (op.answer host moment request gate)).checkpoints.isSome = true :=
    fun op gate held still => held.mutate_configured host moment request op.path _
      (op.answer_checkpoints host moment request gate) still
  unfold dispatch
  cases Arm.ofCapability request.capability with
  | fsRead =>
      cases FsReadRequest.ofParams request.params with
      | none => exact configured
      | some value =>
          exact client.gated_configured request decision _ _ _
            (fun _ held still => replies held still _) configured
  | fsPatch =>
      cases FsPatchRequest.ofParams request.params with
      | none => exact configured
      | some value =>
          exact client.gated_configured request decision _ _ _ (mutates (.patch value)) configured
  | fsWrite =>
      cases FsWriteRequest.ofParams request.params with
      | none => exact configured
      | some value =>
          exact client.gated_configured request decision _ _ _ (mutates (.write value)) configured
  | astEdit =>
      cases AstEditRequest.ofParams request.params with
      | none => exact configured
      | some value =>
          exact client.mutate_configured host moment request value.path
            (answerEdit host moment request value)
            (answerEdit_checkpoints host moment request value) configured
  | lspRename =>
      cases LspRenameRequest.ofParams request.params with
      | none => exact configured
      | some value =>
          unfold runRename
          simp only
          split <;> exact configured
  | fsDelete =>
      cases FsDeleteRequest.ofParams request.params with
      | none => exact configured
      | some value => exact client.deleteArm_configured host moment request decision _ configured
  | fsRestore => exact client.restoreArm_configured host moment request decision configured
  | checkpointList =>
      exact client.gated_configured request decision _ _ _
        (fun _ held still => replies held still _) configured
  | fsVerify =>
      cases FsVerifyRequest.ofParams request.params with
      | none => exact configured
      | some value =>
          exact client.gated_configured request decision _ _ _ (fun _ _ still => still) configured
  | fsList =>
      cases FsListRequest.ofParams request.params with
      | none => exact configured
      | some value =>
          simp only
          split
          · exact replies client configured _
          · exact client.gated_configured request decision _ _ _
              (fun _ held still => replies held still _) configured
  | fsWatch =>
      cases FsWatchRequest.ofParams request.params with
      | none => exact configured
      | some value =>
          exact client.gated_configured request decision _ _ _
            (fun _ held still => replies held still _) configured
  | engine => exact configured
  | notImplemented => exact configured

theorem handleAction_configured (configured : client.checkpoints.isSome = true) :
    (client.handleAction host moment request decision).checkpoints.isSome = true := by
  unfold handleAction
  split
  · exact configured
  · have still := client.dispatch_configured host moment request decision configured
    split
    · rename_i held
      rwa [held] at still
    · rename_i held
      rwa [held] at still

end Configured

/-- Actions are handled in turn, and between them the scopes and the disk may change. -/
inductive Visit where
  | action (moment : Moment) (request : ActionRequestFrame) (decision : Option ConsentAnswer)
  | outside (gate : CapabilityGate) (fs : FileSystem)

def visit (host : Host) (client : WsClient) : Visit → WsClient
  | .action moment request decision => client.handleAction host moment request decision
  | .outside gate fs => { client with gate := gate, fs := fs }

/-- A client with a checkpoint store after some visits. -/
def visited (host : Host) (gate : CapabilityGate) (store : CheckpointStore) (fs : FileSystem)
    (visits : List Visit) : WsClient :=
  run (visit host) (.start gate (some store) fs) visits

theorem visited_configured (host : Host) (gate : CapabilityGate) (store : CheckpointStore)
    (fs : FileSystem) (visits : List Visit) :
    (visited host gate store fs visits).checkpoints.isSome = true := by
  induction visits using List.reverseRecOn with
  | nil => rfl
  | append_singleton visits last ih =>
      rw [visited, run_concat]
      cases last with
      | action moment request decision =>
          exact handleAction_configured _ host moment request decision ih
      | outside gate fs => exact ih

/-- Every file that the actions of a run change has its pre-image exactly when each action of the run
is covered. -/
theorem preimages_iff (host : Host) (gate : CapabilityGate) (store : CheckpointStore)
    (fs : FileSystem) (visits : List Visit) :
    (∀ before moment request decision rest,
        visits = before ++ .action moment request decision :: rest →
          (visited host gate store fs before).Preimaged host moment request decision) ↔
      ∀ before moment request decision rest,
        visits = before ++ .action moment request decision :: rest →
          (visited host gate store fs before).Covered host moment request := by
  refine forall₅_congr fun before moment request decision rest => imp_congr_right fun _ => ?_
  obtain ⟨held, configured⟩ :=
    Option.isSome_iff_exists.mp (visited_configured host gate store fs before)
  exact preimaged_iff _ host moment request decision held configured

/-- A workspace has one file. -/
def oneFile : FileSystem := (FileSystem.empty.put ["w"] .dir).put ["w", "a"] (.file [97])

/-- The server answers a rename with an edit of the file. -/
def renameEdit : Json.Value :=
  .object [("changes", .object [("file:///w/a", .array [.object [("newText", .string "b")]])])]

def renameMoment : Moment := { Moment.quiet 1 with workspaceEdit := fun _ => .ok ("", "", renameEdit) }

def renameRequest : ActionRequestFrame :=
  ⟨protocolVersion, "a", "desktop.lsp.rename", .object [("path", .string "/w/a"), ("line", .ofNat 0),
    ("character", .ofNat 0), ("newName", .string "b")], none, false⟩

def renameGate : CapabilityGate := gateOf ["desktop.shell.execute", "desktop.fs.write"] ["/w"]

def renamePlan : LspOps.PlannedFile := ⟨"/w/a", "a", [⟨0, 0, "b"⟩]⟩

/-- A rename changes the file of the workspace without a capture. -/
theorem rename_unsaved :
    ¬ ∀ (host : Host) (gate : CapabilityGate) (store : CheckpointStore) (fs : FileSystem)
      (visits before : List Visit) (moment : Moment) (request : ActionRequestFrame)
      (decision : Option ConsentAnswer) (rest : List Visit),
      visits = before ++ .action moment request decision :: rest →
        (visited host gate store fs before).Preimaged host moment request decision := by
  intro claim
  have preimaged := claim .quiet renameGate .empty oneFile [.action renameMoment renameRequest none] []
    renameMoment renameRequest none [] rfl
  have arm : Arm.ofCapability renameRequest.capability = .lspRename := by decide
  simp only [Preimaged, arm] at preimaged
  have listed : (⟨oneFile, .ofText "/w/a", LspOps.rewritten renamePlan⟩ : Rewrite) ∈
      (visited .quiet renameGate .empty oneFile []).rewrites .quiet renameMoment renameRequest := by
    have clear : (visited .quiet renameGate .empty oneFile []).refusal renameRequest = none := by
      decide
    have passed : ensurePath renameGate "desktop.fs.write" "/w/a" = .ok () := by decide
    have planned : LspOps.plannedFiles renameGate oneFile renameEdit = .ok [renamePlan] := by
      decide
    have params : LspRenameRequest.ofParams renameRequest.params =
      some ⟨"/w/a", 0, 0, "b", none⟩ := rfl
    have started : (visited .quiet renameGate .empty oneFile []).gate = renameGate := rfl
    have disk : (visited .quiet renameGate .empty oneFile []).fs = oneFile := rfl
    simp only [rewrites, clear, arm, params, LspOps.renameRewrites, started, disk, passed,
      renameMoment, planned, LspOps.rewrites]
    exact List.mem_cons_self
  obtain ⟨-, path, ⟨old, kept, before, after, captured⟩, -⟩ := preimaged.2 _ listed ["w", "a"]
    (by unfold FileSystem.FileChanged; decide)
  have same : ((visited .quiet renameGate .empty oneFile []).handleAction .quiet renameMoment
      renameRequest none).checkpoints = some .empty := by decide +kernel
  rw [same] at after
  exact captured.changes ((Option.some.inj after).symm.trans (Option.some.inj before))

end WsClient

end Daemon
