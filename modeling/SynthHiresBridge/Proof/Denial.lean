import SynthHiresBridge.Proof.Arms
import SynthHiresBridge.Proof.Eviction
import SynthHiresBridge.Proof.Mutations

namespace Daemon

open Posix

/-- A denial of the gate or of a path starts with one of these texts. -/
def denialTexts : List String := ["capability not granted: ", "path outside alwaysAllow: "]

def isDenial (message : String) : Bool :=
  denialTexts.any fun text => text.toList.isPrefixOf message.toList

def DaemonError.denies : DaemonError → Bool
  | .capabilityDenied _ | .pathDenied _ => true
  | .io _ | .protocol _ | .awaitingConsent => false

theorem isDenial_own (text detail : String) (own : text ∈ denialTexts) :
    isDenial (text ++ detail) = true := by
  rw [isDenial, List.any_eq_true]
  refine ⟨text, own, ?_⟩
  rw [List.isPrefixOf_iff_prefix, String.toList_append]
  exact List.prefix_append ..

/-- A message is no denial when its first words part from those of every denial. -/
theorem isDenial_other (text detail : String)
    (apart : ∀ denial ∈ denialTexts,
      ¬ denial.toList <+: text.toList ∧ ¬ text.toList <+: denial.toList) :
    isDenial (text ++ detail) = false := by
  rw [isDenial, List.any_eq_false]
  intro denial listed starts
  rw [List.isPrefixOf_iff_prefix, String.toList_append] at starts
  rcases List.prefix_or_prefix_of_prefix starts (List.prefix_append ..) with inside | outside
  · exact (apart denial listed).1 inside
  · exact (apart denial listed).2 outside

/-- The text of an error tells whether it is a denial. -/
theorem isDenial_text (error : DaemonError) : isDenial error.text = error.denies := by
  cases error with
  | capabilityDenied detail => exact isDenial_own _ detail (by simp [denialTexts])
  | pathDenied detail => exact isDenial_own _ detail (by simp [denialTexts])
  | io detail => exact isDenial_other _ detail (by decide)
  | protocol detail => exact isDenial_other _ detail (by decide)
  | awaitingConsent => decide

/-- A result is a denial when it is the error of one. -/
def Denies {α : Type} (result : Except DaemonError α) : Prop :=
  ∃ error, result = .error error ∧ error.denies = true

theorem denies_ok {α : Type} (value : α) : ¬ Denies (.ok value : Except DaemonError α) := by
  rintro ⟨error, same, -⟩
  cases same

theorem denies_error {α : Type} (error : DaemonError) :
    Denies (.error error : Except DaemonError α) ↔ error.denies = true := by
  constructor
  · rintro ⟨other, same, denies⟩
    cases same
    exact denies
  · exact fun denies => ⟨error, rfl, denies⟩

theorem denies_map {α β : Type} (result : Except DaemonError α) (f : α → β) :
    Denies (result.map f) ↔ Denies result := by
  cases result with
  | ok value => exact iff_of_false (denies_ok _) (denies_ok _)
  | error error => exact (denies_error error).trans (denies_error error).symm

theorem denies_ofErrno {α : Type} (errno : Errno) :
    ¬ Denies (.error (.ofErrno errno) : Except DaemonError α) := by
  rw [denies_error]
  exact Bool.noConfusion

theorem denies_bind {α β : Type} (result : Except DaemonError α) (next : α → Except DaemonError β)
    (first : ¬ Denies result) (second : ∀ value, ¬ Denies (next value)) :
    ¬ Denies (result.bind next) := by
  cases result with
  | error error =>
      rw [denies_error] at first
      exact fun denied => first ((denies_error error).mp denied)
  | ok value => exact second value

theorem denies_mapM {α β : Type} (step : α → Except DaemonError β)
    (each : ∀ value, ¬ Denies (step value)) (values : List α) : ¬ Denies (values.mapM step) := by
  induction values with
  | nil => exact denies_ok _
  | cons first rest ih =>
      rw [List.mapM_cons]
      exact denies_bind _ _ (each first) fun head => denies_bind _ _ ih fun tail => denies_ok _

theorem denies_protocol {α : Type} (detail : String) :
    ¬ Denies (.error (.protocol detail) : Except DaemonError α) := by
  rw [denies_error]
  exact Bool.noConfusion

namespace FsOps

/-- The second check only fails with a denial. -/
theorem denies_gateForPath (gate : CapabilityGate) (fs : FileSystem) (capability path : String) :
    Denies (gateForPath gate fs capability path) ↔
      gateForPath gate fs capability path ≠ .ok () := by
  unfold gateForPath
  simp only
  split
  · exact iff_of_false (denies_ok _) (by simp)
  · exact iff_of_true ⟨_, rfl, rfl⟩ (by simp)
  · exact iff_of_true ⟨_, rfl, rfl⟩ (by simp)

/-- The fresh sibling of a write is a file, so the write is not denied for a symbolic link. -/
theorem denies_writeViaUniqueTmp (moment : Moment) (fs : FileSystem) (path : String)
    (bytes : List UInt8) : ¬ Denies (writeViaUniqueTmp moment fs path bytes).1 := by
  unfold writeViaUniqueTmp
  cases made : fs.createNew ((PathBuf.ofText path).withExtension
      ("synthhires-tmp-" ++ moment.uuid)) bytes with
  | error errno =>
      simp only [made]
      exact denies_ofErrno errno
  | ok created =>
      obtain ⟨-, -, -, -, seen⟩ := FileSystem.created_stands fs created _ bytes made
      cases moved : created.rename ((PathBuf.ofText path).withExtension
          ("synthhires-tmp-" ++ moment.uuid)) (.ofText path) with
      | error errno =>
          simp only [made, seen, moved]
          exact denies_ofErrno errno
      | ok renamed =>
          simp only [made, seen, moved]
          exact denies_ok _

/-- A write is denied by the second check, for its size, or for a path without a parent. -/
theorem denies_write (moment : Moment) (gate : CapabilityGate) (fs : FileSystem)
    (req : FsWriteRequest) :
    Denies (write moment gate fs req).1 ↔
      gateForPath gate fs "desktop.fs.write" req.path ≠ .ok () ∨
        maxWriteBytes < (Text.encode req.content).length ∨
        (PathBuf.ofText req.path).parent = none := by
  unfold write
  have checked := denies_gateForPath gate fs "desktop.fs.write" req.path
  cases passed : gateForPath gate fs "desktop.fs.write" req.path with
  | error error =>
      rw [passed, denies_error] at checked
      simp only [denies_error]
      rw [checked]
      simp
  | ok _ =>
      simp only [ne_eq, not_true_eq_false, false_or]
      split
      · rename_i large
        exact iff_of_true ⟨_, rfl, rfl⟩ (.inl large)
      · rename_i fits
        cases parent : (PathBuf.ofText req.path).parent with
        | none => exact iff_of_true ⟨_, rfl, rfl⟩ (.inr rfl)
        | some above =>
            refine iff_of_false ?_ (by simp [fits])
            simp only
            cases created : fs.createDirAll above with
            | mk outcome made =>
                cases outcome with
                | error errno => exact denies_ofErrno errno
                | ok _ =>
                    have wrote := denies_writeViaUniqueTmp moment made req.path
                      (Text.encode req.content)
                    simp only
                    cases written : writeViaUniqueTmp moment made req.path
                        (Text.encode req.content) with
                    | mk outcome after =>
                        rw [written] at wrote
                        cases outcome with
                        | error error =>
                            rw [denies_error] at wrote
                            simpa only [denies_error] using wrote
                        | ok _ =>
                            simp only
                            cases after.read (.ofText req.path) with
                            | error errno => exact denies_ofErrno errno
                            | ok back => exact denies_ok _

theorem denies_applyPlanned (planned : List PlannedEdit) (lines : List String)
    (applied : List FsPatchApplied) (last : Option Nat) :
    ¬ Denies (applyPlanned lines applied last planned) := by
  induction planned generalizing lines applied last with
  | nil => exact denies_ok _
  | cons edit rest ih =>
      rw [applyPlanned]
      split
      · exact denies_protocol _
      · exact ih _ _ _

/-- A stale anchor and an overlap are no denials. -/
theorem denies_patchedContent (host : Host) (original : List UInt8) (edits : List HashlineEdit) :
    ¬ Denies (patchedContent host original edits) := by
  refine denies_bind _ _ (denies_mapM _ (fun edit => ?_) edits) fun planned => ?_
  · unfold planEdit
    simp only
    split
    · exact denies_protocol _
    · split
      · exact denies_ok _
      · exact denies_protocol _
  · rw [denies_map]
    exact denies_applyPlanned _ _ _ _

/-- A patch is denied by the second check alone. -/
theorem denies_patch (host : Host) (moment : Moment) (gate : CapabilityGate) (fs : FileSystem)
    (req : FsPatchRequest) :
    Denies (patch host moment gate fs req).1 ↔
      gateForPath gate fs "desktop.fs.write" req.path ≠ .ok () := by
  unfold patch
  have checked := denies_gateForPath gate fs "desktop.fs.write" req.path
  cases passed : gateForPath gate fs "desktop.fs.write" req.path with
  | error error =>
      rw [passed, denies_error] at checked
      simp only [denies_error]
      exact checked
  | ok _ =>
      refine iff_of_false ?_ (by simp)
      simp only
      split
      · exact denies_protocol _
      · cases fs.read (.ofText req.path) with
        | error errno => exact denies_ofErrno errno
        | ok original =>
            have planned := denies_patchedContent host original req.edits
            simp only
            cases content : patchedContent host original req.edits with
            | error error =>
                rw [content, denies_error] at planned
                simpa only [denies_error] using planned
            | ok patched =>
                have wrote := denies_writeViaUniqueTmp moment fs req.path
                  (Text.encode patched.1)
                simp only
                cases written : writeViaUniqueTmp moment fs req.path
                    (Text.encode patched.1) with
                | mk outcome after =>
                    rw [written] at wrote
                    cases outcome with
                    | error error =>
                        rw [denies_error] at wrote
                        simpa only [denies_error] using wrote
                    | ok _ =>
                        simp only
                        cases after.read (.ofText req.path) with
                        | error errno => exact denies_ofErrno errno
                        | ok back => exact denies_ok _

/-- A delete is denied by the second check alone. -/
theorem denies_delete (gate : CapabilityGate) (fs : FileSystem) (req : FsDeleteRequest) :
    Denies (delete gate fs req).1 ↔ gateForPath gate fs "desktop.fs.delete" req.path ≠ .ok () := by
  unfold delete
  have checked := denies_gateForPath gate fs "desktop.fs.delete" req.path
  cases passed : gateForPath gate fs "desktop.fs.delete" req.path with
  | error error =>
      rw [passed, denies_error] at checked
      simp only [denies_error]
      exact checked
  | ok _ =>
      refine iff_of_false ?_ (by simp)
      simp only
      split
      · exact denies_ofErrno _
      · cases removed : fs.removeDirAll (.ofText req.path) with
        | mk outcome after =>
            cases outcome with
            | error errno => exact denies_ofErrno errno
            | ok _ => exact denies_ok _
      · cases fs.removeFile (.ofText req.path) with
        | error errno => exact denies_ofErrno errno
        | ok removed => exact denies_ok _

end FsOps

/-- The language libraries answer with errors that are no denials. -/
def Host.Languages (host : Host) : Prop :=
  ∀ language path pattern, ¬ Denies (host.astLanguage language path pattern)

namespace AstOps

theorem denies_rebuild (source : List UInt8) (edits : List ByteEdit) (last : Nat) :
    ¬ Denies (rebuild source last edits) := by
  induction edits generalizing last with
  | nil => exact denies_ok _
  | cons edit rest ih =>
      rw [rebuild]
      split
      · exact denies_protocol _
      · rw [denies_map]
        exact ih _

theorem denies_readToString (fs : FileSystem) (path : String) :
    ¬ Denies (readToString fs path) := by
  unfold readToString
  split
  · exact denies_ofErrno _
  · split
    · exact fun denied => Bool.noConfusion ((denies_error _).mp denied)
    · exact denies_ok _

theorem denies_plan (host : Host) (languages : host.Languages) (gate : CapabilityGate)
    (fs : FileSystem) (req : AstEditRequest) :
    Denies (plan host gate fs req) ↔
      gate.checkPath "desktop.fs.write" (.ofText req.path) ≠ .allow := by
  unfold plan ensurePath
  cases gate.checkPath "desktop.fs.write" (.ofText req.path) with
  | deny => exact iff_of_true ⟨_, rfl, rfl⟩ (by simp)
  | requireConsent => exact iff_of_true ⟨_, rfl, rfl⟩ (by simp)
  | allow =>
      refine iff_of_false (denies_bind _ _ (denies_ok _) fun _ => ?_) (by simp)
      split
      · exact denies_ofErrno _
      · exact denies_protocol _
      · refine denies_bind _ _ (languages _ _ _) fun _ => ?_
        refine denies_bind _ _ (denies_readToString fs req.path) fun source => ?_
        rw [denies_map]
        exact denies_rebuild _ _ _

/-- A structural edit is denied by the check of its spelling alone. -/
theorem denies_edit (host : Host) (languages : host.Languages) (gate : CapabilityGate)
    (fs : FileSystem) (req : AstEditRequest) :
    Denies (edit host gate fs req).1 ↔
      gate.checkPath "desktop.fs.write" (.ofText req.path) ≠ .allow := by
  rw [← denies_plan host languages gate fs req]
  unfold edit
  cases planned : plan host gate fs req with
  | error error => exact (denies_error error).trans (denies_error error).symm
  | ok ready =>
      refine iff_of_false ?_ (denies_ok _)
      simp only
      split
      · exact denies_ok _
      · cases replaceViaTmp fs (.ofText req.path) ready.out with
        | mk outcome after =>
            cases outcome with
            | error fault =>
                rcases fault with errno | errno
                · exact denies_ofErrno errno
                · exact denies_protocol _
            | ok _ =>
                simp only
                cases after.read (.ofText req.path) with
                | error errno => exact denies_ofErrno errno
                | ok back => exact denies_ok _

end AstOps

namespace WsClient

/-- A request is refused when its answer is a denial. -/
def Refused (before after : WsClient) : Prop :=
  ∃ frame error, after.sent = before.sent ++ [.actionResult frame] ∧ frame.error = some error ∧
    isDenial error.message = true

theorem refused_sendActionResult (client held : WsClient) (id : String) (ok : Bool)
    (output : Option Json.Value) (error : Option String) (durationMs : Nat)
    (sent : held.sent = client.sent) :
    Refused client (held.sendActionResult id ok output error durationMs) ↔
      ∃ message, error = some message ∧ isDenial message = true := by
  simp only [Refused, sendActionResult, send, sent, List.append_cancel_left_eq, List.cons.injEq,
    and_true, SentFrame.actionResult.injEq]
  constructor
  · rintro ⟨frame, failure, rfl, same, denial⟩
    obtain ⟨message, given, rfl⟩ := Option.map_eq_some_iff.mp same
    exact ⟨message, given, denial⟩
  · rintro ⟨message, rfl, denial⟩
    exact ⟨_, _, rfl, rfl, denial⟩

theorem refused_sendError (client held : WsClient) (id message : String)
    (sent : held.sent = client.sent) :
    Refused client (held.sendError id message) ↔ isDenial message = true := by
  rw [sendError, refused_sendActionResult client held id _ _ _ _ sent]
  simp

theorem refused_reply (client held : WsClient) (moment : Moment) (request : ActionRequestFrame)
    (result : Except DaemonError Json.Value) (sent : held.sent = client.sent) :
    Refused client (held.reply moment request result) ↔ Denies result := by
  unfold reply
  cases result with
  | ok output =>
      rw [refused_sendActionResult client held _ _ _ _ _ sent]
      exact iff_of_false (by simp) (denies_ok _)
  | error error => rw [refused_sendError client held _ _ sent, isDenial_text, denies_error]

/-- A failed read-back is no denial. -/
theorem refused_replyVerified (client held : WsClient) (moment : Moment)
    (request : ActionRequestFrame) (mismatch : String) (plain : isDenial mismatch = false)
    (result : Except DaemonError (Bool × Json.Value)) (sent : held.sent = client.sent) :
    Refused client (held.replyVerified moment request mismatch result) ↔ Denies result := by
  unfold replyVerified
  cases result with
  | ok output =>
      simp only [refused_sendActionResult client held _ _ _ _ _ sent]
      refine iff_of_false ?_ (denies_ok _)
      rintro ⟨message, same, denial⟩
      split at same
      · cases same
      · rw [← Option.some.inj same, plain] at denial
        cases denial
  | error error => rw [refused_sendError client held _ _ sent, isDenial_text, denies_error]

/-- A mutation leaves the store alone when it is refused, unless it is refused after a capture. -/
theorem mutate_untouched_iff (before client : WsClient) (host : Host) (moment : Moment)
    (request : ActionRequestFrame) (path : String) (run : WsClient → WsClient) (late : Prop)
    (keeps : ∀ held, (run held).checkpoints = held.checkpoints)
    (refuses : ∀ held : WsClient, held.gate = client.gate → held.fs = client.fs →
      held.sent = client.sent → (Refused before (run held) ↔ late)) :
    (Refused before (client.mutate host moment request path run) →
        (client.mutate host moment request path run).checkpoints = client.checkpoints) ↔
      ¬ (client.checkpoints.isSome = true ∧ moment.storeFault = none ∧ late) := by
  cases held : client.checkpoints with
  | none =>
      refine iff_of_true (fun _ => ?_) (by simp)
      simp only [mutate, checkpointBefore, held]
      exact (keeps client).trans held
  | some store =>
      cases fault : moment.storeFault with
      | some reason =>
          refine iff_of_true (fun _ => ?_) (by simp)
          simp [mutate, checkpointBefore, held, fault, CheckpointStore.capture, sendError,
            sendActionResult, send]
      | none =>
          have changes := store.enforceLimits_add_ne (CheckpointStore.record host client.fs
            moment.captureAt request.id request.capability path)
          rw [CheckpointStore.record_ts] at changes
          simp only [mutate, checkpointBefore, held, fault, CheckpointStore.capture_eq, keeps,
            Option.some.injEq, Option.isSome_some, true_and]
          rw [refuses { client with checkpoints := some _ } rfl rfl rfl]
          exact imp_iff_not changes

/-- The path gate lets an action through inside its scope or with an approval. -/
def Admitted (client : WsClient) (capability path : String) (decision : Option ConsentAnswer) :
    Prop :=
  client.gate.allows capability = true ∧
    (client.gate.checkPathReal client.fs capability (.ofText path) = .allow ∨
      ∃ answer, decision = some answer ∧ answer.approved = true)

/-- The second check refuses an action that the path gate let through on an approval when its path
has a parent segment or no ancestor that resolves. -/
def Unresolved (client : WsClient) (capability path : String) : Prop :=
  client.gate.checkPathReal client.fs capability (.ofText path) ≠ .allow ∧
    ((PathBuf.ofText path).hasParentDir = true ∨ client.fs.realAncestor (.ofText path) = none)

/-- The second check of an admitted action fails exactly on an unresolved path. -/
theorem pathGate_admits (client : WsClient) (request : ActionRequestFrame)
    (capability path : String) (decision : Option ConsentAnswer)
    (writing : capability ≠ "desktop.fs.read") :
    (∃ gate held, client.pathGate request capability path decision = (.ok gate, held) ∧
      held.fs = client.fs ∧ held.sent = client.sent ∧ held.checkpoints = client.checkpoints ∧
      client.Admitted capability path decision ∧
      (FsOps.gateForPath gate client.fs capability path ≠ .ok () ↔
        client.Unresolved capability path)) ∨
    (∃ error held, client.pathGate request capability path decision = (.error error, held) ∧
      held.fs = client.fs ∧ held.checkpoints = client.checkpoints ∧
      ¬ client.Admitted capability path decision) := by
  have outcome := client.pathGate_case request capability path decision
  generalize client.pathGate request capability path decision = result at outcome
  cases outcome with
  | missing _ lacking =>
      refine .inr ⟨_, _, rfl, rfl, rfl, ?_⟩
      rintro ⟨holds, -⟩
      rw [lacking] at holds
      cases holds
  | refused answer holds outside no =>
      refine .inr ⟨_, _, rfl, rfl, rfl, ?_⟩
      rintro ⟨-, allowed | ⟨other, same, yes⟩⟩
      · exact outside allowed
      · cases same
        rw [no] at yes
        cases yes
  | prompted holds outside =>
      refine .inr ⟨_, _, rfl, rfl, rfl, ?_⟩
      rintro ⟨-, allowed | ⟨other, same, -⟩⟩
      · exact outside allowed
      · cases same
  | allowed _ granted =>
      have holds := ((CapabilityGate.checkPath_allow_iff _ _ _).mp
        (client.gate.checkPath_of_checkPathReal client.fs capability _ granted)).1
      refine .inl ⟨_, _, rfl, rfl, rfl, rfl, ⟨holds, .inl granted⟩, ?_⟩
      refine iff_of_false ?_ fun unresolved => unresolved.1 granted
      rw [not_not]
      exact FsOps.gateForPath_of_checkPathReal _ _ _ _
        (client.grantedGate_allows request capability path granted)
  | approved answer holds outside yes =>
      refine .inl ⟨_, _, rfl, remembered_fs client path answer, ?_, ?_,
        ⟨holds, .inr ⟨answer, rfl, yes⟩⟩, ?_⟩
      · unfold remembered
        split <;> rfl
      · unfold remembered
        split <;> rfl
      · have kept : (client.remembered path answer).gate.allows capability = true := by
          rw [remembered_allows]
          exact holds
        rw [ne_eq, FsOps.gateForPath_ok_iff, if_neg writing, Unresolved, and_iff_right outside]
        cases forward : (PathBuf.ofText path).hasParentDir with
        | true =>
            refine iff_of_true ?_ (.inl rfl)
            intro allowed
            have lexical := CapabilityGate.checkPath_of_checkPathReal _ _ _ _ allowed
            rw [CapabilityGate.checkPath_allow_iff, forward] at lexical
            exact Bool.noConfusion lexical.2.1
        | false =>
            rw [CapabilityGate.checkPathReal_withOneShotPath _ _ _ _ kept forward]
            simp

end WsClient

namespace FileOp

/-- The operation that a request asks for. -/
def ofRequest (request : ActionRequestFrame) : Option FileOp :=
  match Arm.ofCapability request.capability with
  | .fsWrite => (FsWriteRequest.ofParams request.params).map .write
  | .fsPatch => (FsPatchRequest.ofParams request.params).map .patch
  | .fsDelete => (FsDeleteRequest.ofParams request.params).map .delete
  | _ => none

/-- An operation changes the disk and answers its action. -/
def answer (op : FileOp) (host : Host) (moment : Moment) (request : ActionRequestFrame)
    (gate : CapabilityGate) (client : WsClient) : WsClient :=
  match op with
  | .write value =>
      let ran := FsOps.write moment gate client.fs value
      let client := { client with fs := ran.2 }
      client.replyVerified moment request "write read-back verification failed"
        (ran.1.map fun result => (result.verified, result.toValue))
  | .patch value =>
      let ran := FsOps.patch host moment gate client.fs value
      let client := { client with fs := ran.2 }
      client.replyVerified moment request "patch read-back verification failed"
        (ran.1.map fun result => (result.verified, result.toValue))
  | .delete value =>
      let ran := FsOps.delete gate client.fs value
      let client := { client with fs := ran.2 }
      client.reply moment request (ran.1.map fun _ => .object [("deleted", .bool true)])

/-- A write oversteps the limits of the operation with its size or with a path without a parent. -/
def Oversteps : FileOp → Prop
  | .write value => FsOps.maxWriteBytes < (Text.encode value.content).length ∨
      (PathBuf.ofText value.path).parent = none
  | .patch _ | .delete _ => False

section Answer

variable (op : FileOp) (host : Host) (moment : Moment) (request : ActionRequestFrame)
  (gate : CapabilityGate) (client : WsClient)

theorem answer_fs :
    (op.answer host moment request gate client).fs = (op.run host moment gate client.fs).2 := by
  cases op <;> simp only [answer, run, WsClient.replyVerified, WsClient.reply] <;> split <;> rfl

theorem answer_checkpoints :
    (op.answer host moment request gate client).checkpoints = client.checkpoints := by
  cases op <;> simp only [answer, WsClient.replyVerified, WsClient.reply] <;> split <;> rfl

/-- An operation is denied by the second check or for the limits it oversteps. -/
theorem denies_run (fs : FileSystem) : Denies (op.run host moment gate fs).1 ↔
    FsOps.gateForPath gate fs op.capability op.path ≠ .ok () ∨ op.Oversteps := by
  cases op with
  | write value => exact (denies_map _ _).trans (FsOps.denies_write moment gate fs value)
  | patch value =>
      refine ((denies_map _ _).trans (FsOps.denies_patch host moment gate fs value)).trans ?_
      exact (or_iff_left id).symm
  | delete value =>
      exact (FsOps.denies_delete gate fs value).trans (or_iff_left id).symm

theorem refused_answer (before : WsClient) (sent : client.sent = before.sent) :
    WsClient.Refused before (op.answer host moment request gate client) ↔
      Denies (op.run host moment gate client.fs).1 := by
  cases op with
  | write value =>
      have plain : isDenial "write read-back verification failed" = false := by decide
      refine (before.refused_replyVerified { client with
        fs := (FsOps.write moment gate client.fs value).2 } moment request _ plain _ sent).trans ?_
      exact (denies_map _ _).trans (denies_map _ _).symm
  | patch value =>
      have plain : isDenial "patch read-back verification failed" = false := by decide
      refine (before.refused_replyVerified { client with
        fs := (FsOps.patch host moment gate client.fs value).2 } moment request _ plain _
        sent).trans ?_
      exact (denies_map _ _).trans (denies_map _ _).symm
  | delete value =>
      refine (before.refused_reply { client with
        fs := (FsOps.delete gate client.fs value).2 } moment request _ sent).trans ?_
      exact denies_map _ _

end Answer

theorem capability_writes (op : FileOp) : op.capability ≠ "desktop.fs.read" := by
  cases op <;> simp [capability]

end FileOp

namespace WsClient

/-- An action mutates behind the path gate: it runs under the gate that it gets, and a gate that
refuses it leaves the store and the disk alone. -/
structure Follows (client : WsClient) (host : Host) (moment : Moment)
    (request : ActionRequestFrame) (decision : Option ConsentAnswer) (op : FileOp)
    (after : WsClient) : Prop where
  passes : ∀ gate held,
    client.pathGate request op.capability op.path decision = (.ok gate, held) →
      after = held.mutate host moment request op.path (op.answer host moment request gate)
  stops : ∀ error held,
    client.pathGate request op.capability op.path decision = (.error error, held) →
      after.checkpoints = held.checkpoints ∧ after.fs = held.fs

/-- A structural edit changes the disk and answers its action. -/
def answerEdit (host : Host) (moment : Moment) (request : ActionRequestFrame)
    (value : AstEditRequest) (client : WsClient) : WsClient :=
  let ran := AstOps.edit host client.gate client.fs value
  let client := { client with fs := ran.2 }
  client.replyVerified moment request "ast_edit read-back verification failed"
    (ran.1.map fun result => (result.verified, result.toValue))

theorem answerEdit_checkpoints (host : Host) (moment : Moment) (request : ActionRequestFrame)
    (value : AstEditRequest) (client : WsClient) :
    (client.answerEdit host moment request value).checkpoints = client.checkpoints := by
  simp only [answerEdit, replyVerified]
  split <;> rfl

theorem answerEdit_fs (host : Host) (moment : Moment) (request : ActionRequestFrame)
    (value : AstEditRequest) (client : WsClient) :
    (client.answerEdit host moment request value).fs =
      (AstOps.edit host client.gate client.fs value).2 := by
  simp only [answerEdit, replyVerified]
  split <;> rfl

section Arms

variable (client : WsClient) (host : Host) (moment : Moment) (request : ActionRequestFrame)
  (decision : Option ConsentAnswer)

theorem follows_gated (clear : client.refusal request = none) (op : FileOp)
    (arm : client.dispatch host moment request decision =
      client.gated request op.capability op.path decision
        fun gate held => held.mutate host moment request op.path
          (op.answer host moment request gate)) :
    client.Follows host moment request decision op
      (client.handleAction host moment request decision) := by
  constructor
  · intro gate held passed
    simp [handleAction, clear, arm, gated, passed]
  · intro error held failed
    cases error <;> simp [handleAction, clear, arm, gated, failed, sendError, sendActionResult, send,
      park]

/-- A write, a patch and a delete follow the path gate. -/
theorem follows_fileOp (clear : client.refusal request = none) (op : FileOp)
    (asked : FileOp.ofRequest request = some op) :
    client.Follows host moment request decision op
      (client.handleAction host moment request decision) := by
  unfold FileOp.ofRequest at asked
  cases arm : Arm.ofCapability request.capability with
  | fsWrite =>
      simp only [arm, Option.map_eq_some_iff] at asked
      obtain ⟨value, params, rfl⟩ := asked
      exact client.follows_gated host moment request decision clear _
        (by rw [dispatch, arm, params]; rfl)
  | fsPatch =>
      simp only [arm, Option.map_eq_some_iff] at asked
      obtain ⟨value, params, rfl⟩ := asked
      exact client.follows_gated host moment request decision clear _
        (by rw [dispatch, arm, params]; rfl)
  | fsDelete =>
      simp only [arm, Option.map_eq_some_iff] at asked
      obtain ⟨value, params, rfl⟩ := asked
      have ran : client.handleAction host moment request decision =
          (client.deleteArm host moment request value decision).1 := by
        have answered : (client.deleteArm host moment request value decision).2 = .answered := by
          unfold deleteArm
          split <;> rfl
        simp only [handleAction, clear, dispatch, arm, params]
        cases held : client.deleteArm host moment request value decision with
        | mk after outcome =>
            rw [held] at answered
            simp only at answered
            rw [answered]
      rw [ran]
      constructor
      · intro gate held passed
        change client.pathGate request "desktop.fs.delete" value.path decision = _ at passed
        simp only [deleteArm, passed]
        rfl
      · intro error held failed
        change client.pathGate request "desktop.fs.delete" value.path decision = _ at failed
        simp only [deleteArm, failed]
        exact ⟨rfl, rfl⟩
  | _ => simp [arm] at asked

/-- A file operation without its parameters is answered with an error. -/
theorem dispatch_badParams (arm : Arm.ofCapability request.capability = .fsWrite ∨
      Arm.ofCapability request.capability = .fsPatch ∨
      Arm.ofCapability request.capability = .fsDelete)
    (asked : FileOp.ofRequest request = none) :
    ∃ name, client.dispatch host moment request decision = client.badParams host request name := by
  rcases arm with arm | arm | arm
  all_goals
    simp only [FileOp.ofRequest, arm, Option.map_eq_none_iff] at asked
    exact ⟨_, by simp only [dispatch, arm, asked]; rfl⟩

/-- A structural edit runs after the capture of its path. -/
theorem handleAction_astEdit (clear : client.refusal request = none) (value : AstEditRequest)
    (arm : Arm.ofCapability request.capability = .astEdit)
    (params : AstEditRequest.ofParams request.params = some value) :
    client.handleAction host moment request decision =
      client.mutate host moment request value.path
        fun client => client.answerEdit host moment request value := by
  simp only [handleAction, clear, dispatch, arm, params]
  rfl

/-- A file operation leaves the store alone when it is refused, unless it is admitted, captured and
then refused by the second check or for the limits it oversteps. -/
theorem fileOp_untouched_iff (clear : client.refusal request = none) (op : FileOp)
    (asked : FileOp.ofRequest request = some op) :
    (Refused client (client.handleAction host moment request decision) →
        (client.handleAction host moment request decision).checkpoints = client.checkpoints) ↔
      ¬ (client.checkpoints.isSome = true ∧ moment.storeFault = none ∧
        client.Admitted op.capability op.path decision ∧
        (client.Unresolved op.capability op.path ∨ op.Oversteps)) := by
  have follows := client.follows_fileOp host moment request decision clear op asked
  rcases client.pathGate_admits request op.capability op.path decision op.capability_writes with
    ⟨gate, held, passed, disk, sent, store, admitted, second⟩ | ⟨error, held, failed, -, store, stays⟩
  · rw [follows.passes gate held passed, ← store, ← second, and_iff_right admitted]
    refine mutate_untouched_iff client held host moment request op.path _ _
      (op.answer_checkpoints host moment request gate) ?_
    intro inner _ same frames
    rw [op.refused_answer host moment request gate inner client (frames.trans sent), same, disk]
    exact op.denies_run host moment gate client.fs
  · exact iff_of_true (fun _ => (follows.stops error held failed).1.trans store)
      fun late => stays late.2.2.1

theorem astEdit_untouched_iff (clear : client.refusal request = none) (languages : host.Languages)
    (value : AstEditRequest) (arm : Arm.ofCapability request.capability = .astEdit)
    (params : AstEditRequest.ofParams request.params = some value) :
    (Refused client (client.handleAction host moment request decision) →
        (client.handleAction host moment request decision).checkpoints = client.checkpoints) ↔
      ¬ (client.checkpoints.isSome = true ∧ moment.storeFault = none ∧
        client.gate.checkPath "desktop.fs.write" (.ofText value.path) ≠ .allow) := by
  rw [client.handleAction_astEdit host moment request decision clear value arm params]
  refine mutate_untouched_iff client client host moment request value.path _ _
    (answerEdit_checkpoints host moment request value) ?_
  intro held gate disk sent
  have plain : isDenial "ast_edit read-back verification failed" = false := by decide
  refine (refused_replyVerified client
    { held with fs := (AstOps.edit host held.gate held.fs value).2 } moment request _ plain _
    sent).trans ?_
  rw [denies_map, gate, disk, AstOps.denies_edit host languages]

end Arms

/-- A denial comes after the capture when the second check refuses an approved path, when a write
oversteps its limits, or when a structural edit lies outside the scope. -/
def LateDenial (client : WsClient) (moment : Moment) (request : ActionRequestFrame)
    (decision : Option ConsentAnswer) : Prop :=
  client.checkpoints.isSome = true ∧ moment.storeFault = none ∧ client.refusal request = none ∧
    ((∃ op, FileOp.ofRequest request = some op ∧ client.Admitted op.capability op.path decision ∧
        (client.Unresolved op.capability op.path ∨ op.Oversteps)) ∨
      Arm.ofCapability request.capability = .astEdit ∧
        ∃ value, AstEditRequest.ofParams request.params = some value ∧
          client.gate.checkPath "desktop.fs.write" (.ofText value.path) ≠ .allow)

/-- A refused mutation leaves the checkpoints alone exactly when its denial does not come after the
capture. -/
theorem refused_untouched_iff (client : WsClient) (host : Host) (languages : host.Languages)
    (moment : Moment) (request : ActionRequestFrame) (decision : Option ConsentAnswer)
    (mutates : request.capability ∈
      ["desktop.fs.write", "desktop.fs.patch", "desktop.fs.delete", "desktop.code.ast_edit"]) :
    (Refused client (client.handleAction host moment request decision) →
        (client.handleAction host moment request decision).checkpoints = client.checkpoints) ↔
      ¬ client.LateDenial moment request decision := by
  unfold LateDenial
  cases refused : client.refusal request with
  | some reason =>
      refine iff_of_true (fun _ => ?_) (by simp)
      simp [handleAction, refused, sendError, sendActionResult, send]
  | none =>
      rw [and_iff_right rfl]
      have bad : ∀ name, client.dispatch host moment request decision =
          client.badParams host request name →
            (client.handleAction host moment request decision).checkpoints = client.checkpoints := by
        intro name arm
        simp [handleAction, refused, arm, badParams, sendError, sendActionResult, send]
      by_cases edits : Arm.ofCapability request.capability = .astEdit
      · have other : FileOp.ofRequest request = none := by simp [FileOp.ofRequest, edits]
        cases params : AstEditRequest.ofParams request.params with
        | none =>
            refine iff_of_true (fun _ => bad "AstEditRequest" ?_) (by simp [other])
            simp only [dispatch, edits, params]
        | some value =>
            rw [client.astEdit_untouched_iff host moment request decision refused languages value
              edits params]
            simp [other, edits]
      · cases asked : FileOp.ofRequest request with
        | some op =>
            rw [client.fileOp_untouched_iff host moment request decision refused op asked]
            simp [edits]
        | none =>
            refine iff_of_true (fun _ => ?_) (by simp [edits])
            obtain ⟨name, arm⟩ := client.dispatch_badParams host moment request decision (by
              simp only [List.mem_cons, List.not_mem_nil, or_false] at mutates
              rcases mutates with same | same | same | same
              · exact .inl (by rw [same]; rfl)
              · exact .inr (.inl (by rw [same]; rfl))
              · exact .inr (.inr (by rw [same]; rfl))
              · exact absurd (by rw [same]; rfl) edits) asked
            exact bad name arm

/-- A client with an empty store that may write below one directory. -/
def writerOf (capabilities : List String) (fs : FileSystem) : WsClient :=
  .start (gateOf capabilities ["/w"]) (some .empty) fs

/-- A write without its scope is refused before the capture. -/
theorem refused_untouched_unscoped :
    let client := writerOf [] .empty
    let request := pathRequest "a" "desktop.fs.write" "/w/a"
    Refused client (client.handleAction .quiet (.quiet 1) request none) ∧
      (client.handleAction .quiet (.quiet 1) request none).checkpoints = client.checkpoints := by
  have stopped : (writerOf [] .empty).refusal (pathRequest "a" "desktop.fs.write" "/w/a") =
      some "capability not granted: desktop.fs.write" := by decide
  have refused : Refused (writerOf [] .empty) ((writerOf [] .empty).handleAction .quiet (.quiet 1)
      (pathRequest "a" "desktop.fs.write" "/w/a") none) := by
    rw [handleAction, stopped, refused_sendError _ _ _ _ rfl]
    decide
  refine ⟨refused, (refused_untouched_iff (writerOf [] .empty) .quiet (fun _ _ _ => denies_ok _)
    (.quiet 1) (pathRequest "a" "desktop.fs.write" "/w/a") none (by decide)).mpr ?_ refused⟩
  rintro ⟨-, -, clear, -⟩
  rw [stopped] at clear
  cases clear

/-- A file that the agent may not touch. -/
def secret : FileSystem := (FileSystem.empty.put ["etc"] .dir).put ["etc", "key"] (.file [42])

/-- A structural edit of a file outside the scope. -/
def secretEdit : ActionRequestFrame :=
  ⟨protocolVersion, "a", "desktop.code.ast_edit", .object [("path", .string "/etc/key"),
    ("pattern", .string "a"), ("replacement", .string "b")], none, false⟩

/-- A refused edit copies the content of a file outside the scope into the store. -/
theorem refused_captures :
    ¬ ∀ (client : WsClient) (host : Host) (moment : Moment) (request : ActionRequestFrame)
      (decision : Option ConsentAnswer), host.Languages → request.capability ∈
        ["desktop.fs.write", "desktop.fs.patch", "desktop.fs.delete", "desktop.code.ast_edit"] →
      Refused client (client.handleAction host moment request decision) →
      (client.handleAction host moment request decision).checkpoints = client.checkpoints := by
  intro claim
  have untouched := claim (writerOf ["desktop.fs.write"] secret) .quiet (.quiet 1) secretEdit none
    (fun _ _ _ => denies_ok _) (by decide) ⟨_, _, rfl, rfl, by decide⟩
  exact absurd untouched (by decide)

end WsClient

end Daemon
