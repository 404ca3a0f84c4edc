import SynthHiresBridge.Proof.Turns

namespace Daemon

open Posix Transition

namespace WsClient

/-- The path that an answer adds to the gate when it wakes an action. A path that the gate already
allows is not added. -/
def remembers (client : WsClient) (request : ActionRequestFrame) (answer : ConsentAnswer) :
    Option String :=
  if answer.approved ∧ answer.remember ∧ client.refusal request = none then
    (gateTarget request).bind fun target =>
      if client.gate.allows target.1 ∧
          client.gate.checkPathReal client.fs target.1 (.ofText target.2) ≠ .allow then
        some target.2
      else none
  else none

/-- The path that the next decision adds to the gate. -/
def remembersNext (client : WsClient) : Option String :=
  client.consent.notifier.head?.bind fun decision =>
    (client.parked.lookup decision.actionId).bind fun action =>
      client.remembers action.frame decision.answer

/-- The gate with the path of a remembered approval. -/
def gateWith (gate : CapabilityGate) (added : Option String) : CapabilityGate :=
  added.elim gate fun path => gate.withAdditionalPath (.ofText path)

/-- The path gate adds the path of a remembered approval that it needs. -/
theorem pathGate_gate (client : WsClient) (request : ActionRequestFrame) (capability path : String)
    (answer : ConsentAnswer) :
    (client.pathGate request capability path (some answer)).2.gate =
      if answer.approved ∧ answer.remember ∧ client.gate.allows capability ∧
          client.gate.checkPathReal client.fs capability (.ofText path) ≠ .allow then
        client.gate.withAdditionalPath (.ofText path)
      else client.gate := by
  have outcome := client.pathGate_case request capability path (some answer)
  generalize client.pathGate request capability path (some answer) = result at outcome ⊢
  cases outcome with
  | missing _ lacking => simp [lacking]
  | allowed _ granted => simp [granted]
  | approved _ holds outside yes =>
      cases keeps : answer.remember <;> simp [remembered, holds, outside, yes, keeps]
  | refused _ holds outside no => simp [no]

/-- An arm leaves the gate as the path gate left it. -/
theorem dispatch_gate (client : WsClient) (host : Host) (moment : Moment)
    (request : ActionRequestFrame) (decision : Option ConsentAnswer) {capability path : String}
    (target : gateTarget request = some (capability, path)) :
    (client.dispatch host moment request decision).1.gate =
      (client.pathGate request capability path decision).2.gate := by
  by_cases arm : Arm.ofCapability request.capability = .fsDelete
  · obtain ⟨rfl, value, rfl, delete⟩ :=
      client.dispatch_delete host moment request decision target arm
    rw [delete, deleteArm]
    cases passed : client.pathGate request "desktop.fs.delete" value.path decision with
    | mk result held =>
        cases result with
        | ok gate => exact (deleted host moment request value gate held).gate
        | error error => rfl
  · obtain ⟨run, answers, gated⟩ := client.dispatch_gated host moment request decision target arm
    rw [gated, WsClient.gated]
    cases passed : client.pathGate request capability path decision with
    | mk result held =>
        cases result with
        | ok gate => exact (answers gate held).gate
        | error error => cases error <;> rfl

/-- A resumed action adds the path of a remembered approval. -/
theorem handleAction_decided_gate (client : WsClient) (host : Host) (moment : Moment)
    (request : ActionRequestFrame) (answer : ConsentAnswer) :
    (client.handleAction host moment request (some answer)).gate =
      gateWith client.gate (client.remembers request answer) := by
  cases refused : client.refusal request with
  | some reason => simp [handleAction, refused, remembers, gateWith, sendError, sendActionResult, send]
  | none =>
      cases target : gateTarget request with
      | none =>
          rcases client.handleAction_decided host moment request answer with
            answers | ⟨capability, path, named, -⟩
          · rw [answers.gate]
            simp [remembers, target, gateWith]
          · rw [target] at named
            cases named
      | some pair =>
          obtain ⟨capability, path⟩ := pair
          have gate := client.dispatch_gate host moment request (some answer) target
          rw [pathGate_gate] at gate
          have outcome : (client.handleAction host moment request (some answer)).gate =
              (client.dispatch host moment request (some answer)).1.gate := by
            simp only [handleAction, refused]
            cases client.dispatch host moment request (some answer) with
            | mk after outcome => cases outcome <;> rfl
          rw [outcome, gate]
          simp only [remembers, refused, target, Option.bind_some, and_true]
          by_cases yes : answer.approved = true ∧ answer.remember = true
          · by_cases needed : client.gate.allows capability = true ∧
              client.gate.checkPathReal client.fs capability (.ofText path) ≠ .allow
            · simp [yes, needed, gateWith]
            · simp only [yes, true_and, needed, if_false, if_true, gateWith, Option.elim_none]
          · simp only [← and_assoc, yes, false_and, if_false, gateWith, Option.elim_none]

/-- A delivery adds what it remembers. -/
theorem resume_gate (client : WsClient) (host : Host) (moment : Moment) :
    (client.resume host moment).gate = gateWith client.gate client.remembersNext := by
  unfold resume remembersNext
  cases client.consent.notifier with
  | nil => rfl
  | cons decision rest =>
      simp only [List.head?_cons, Option.bind_some]
      cases client.parked.lookup decision.actionId with
      | none => rfl
      | some action => exact handleAction_decided_gate _ host moment action.frame decision.answer

theorem take_gate_same (client : WsClient) (host : Host) (input : Input)
    (unlisted : ∀ scopes, input ≠ .scopes scopes) (undelivered : ∀ moment, input ≠ .deliver moment) :
    (client.take host input).gate = client.gate := by
  rcases client.take_gate host input with
    same | ⟨scopes, listed, -⟩ | ⟨moment, _, _, _, _, _, delivered, -⟩
  · exact same
  · exact absurd listed (unlisted scopes)
  · exact absurd delivered (undelivered moment)

end WsClient

/-- The owner approved a prompt for a path under a capability and asked to remember it. -/
structure Promise where
  capability : String
  path : String

/-- A diary has the paths of the last scope frame, the remembered paths that were added to the gate
since, and the promises that the server has not taken back. -/
structure Diary where
  listed : List String
  added : List String
  promises : List Promise

namespace Diary

/-- A scope frame takes a promise back when it leaves out its capability, or a path at or above its
own that the last frame had listed. -/
def Stands (diary : Diary) (scopes : Scopes) (promise : Promise) : Prop :=
  promise.capability ∈ scopes.capabilities ∧ ∀ root ∈ diary.listed,
    (PathBuf.ofText promise.path).startsWith (.ofText root) = true → root ∈ scopes.alwaysAllowPaths

instance (diary : Diary) (scopes : Scopes) : DecidablePred (diary.Stands scopes) :=
  fun _ => inferInstanceAs (Decidable (_ ∧ _))

def roots (diary : Diary) : List String := diary.listed ++ diary.added

/-- The path and the place it leads to lie under paths of the diary. -/
def Covers (diary : Diary) (fs : FileSystem) (path : PathBuf) : Prop :=
  path.hasParentDir = false ∧ (∃ root ∈ diary.roots, path.startsWith (.ofText root) = true) ∧
    ∃ real, fs.realAncestor path = some real ∧ ∃ root ∈ diary.roots,
      (PathBuf.ofLocation real).startsWith (.ofText root) = true ∨
        ∃ top, fs.canonicalize (.ofText root) = .ok top ∧ top <+: real

/-- A request asks again when its path is at or below the path of a promise of its capability. -/
def AsksAgain (diary : Diary) (request : ActionRequestFrame) (path : String) : Prop :=
  ∃ promise ∈ diary.promises, gateTarget request = some (promise.capability, path) ∧
    (PathBuf.ofText path).startsWith (.ofText promise.path) = true

/-- The gate has the paths of the diary and the capabilities of its promises. -/
structure Describes (diary : Diary) (gate : CapabilityGate) : Prop where
  paths : gate.snapshot.alwaysAllowPaths = diary.roots.map PathBuf.ofText
  single : gate.snapshot.oneShotPaths = []
  granted : ∀ promise ∈ diary.promises, gate.allows promise.capability = true

/-- The check of the gate reads the diary. -/
theorem Describes.allow_iff {diary : Diary} {gate : CapabilityGate} (describes : diary.Describes gate)
    (fs : FileSystem) {capability : String} (holds : gate.allows capability = true)
    (path : PathBuf) : gate.checkPathReal fs capability path = .allow ↔ diary.Covers fs path := by
  have once : gate.oneShot path = false := by simp [CapabilityGate.oneShot, describes.single]
  rw [CapabilityGate.checkPathReal_allow_iff, CapabilityGate.checkPath_allow_iff,
    CapabilityGate.pathMatchesAny_iff]
  simp only [holds, once, CapabilityGate.InScope, describes.paths, List.mem_map,
    exists_exists_and_eq_and, Covers, true_and, Bool.false_eq_true, false_or]
  constructor
  · rintro ⟨⟨forward, -, covered⟩, place⟩
    exact ⟨forward, covered, place⟩
  · rintro ⟨forward, covered, place⟩
    exact ⟨⟨forward, forward, covered⟩, place⟩

end Diary

namespace Connection

/-- The promise of a prompt that the owner approves and asks to remember. -/
def promised (connection : Connection) (actionId : String) (answer : ConsentAnswer) :
    Option Promise :=
  if answer.approved ∧ answer.remember then
    (connection.client.consent.pending.lookup actionId).bind fun given =>
      if connection.client.gate.allows given.prompt.capability then
        given.prompt.path.map fun path => ⟨given.prompt.capability, path⟩
      else none
  else none

/-- A scope frame starts a new list, a delivery adds what it remembers, and an answer may promise. -/
def enter (connection : Connection) (diary : Diary) (event : Event) : Diary :=
  match connection.input event with
  | some (.scopes scopes) =>
      ⟨scopes.alwaysAllowPaths, [], diary.promises.filter fun promise => diary.Stands scopes promise⟩
  | some (.deliver _) =>
      { diary with added := diary.added ++ connection.client.remembersNext.toList }
  | some (.answer actionId answer) =>
      { diary with promises := diary.promises ++ (connection.promised actionId answer).toList }
  | _ => diary

/-- The diary of a run that starts with a grant. -/
def diaryAfter (host : Host) (start : Connection) (scopes : Scopes) (events : List Event) : Diary :=
  annotate (step host) enter start ⟨scopes.alwaysAllowPaths, [], []⟩ events

theorem promised_granted (connection : Connection) (actionId : String) (answer : ConsentAnswer)
    (promise : Promise) (made : connection.promised actionId answer = some promise) :
    connection.client.gate.allows promise.capability = true := by
  unfold promised at made
  split at made
  · obtain ⟨given, -, made⟩ := Option.bind_eq_some_iff.mp made
    split at made
    · rename_i granted
      obtain ⟨path, -, rfl⟩ := Option.map_eq_some_iff.mp made
      exact granted
    · cases made
  · cases made

/-- Every event keeps the diary true. -/
theorem describes_step {diary : Diary} {connection : Connection}
    (describes : diary.Describes connection.client.gate) (host : Host) (event : Event) :
    (connection.enter diary event).Describes (connection.step host event).client.gate := by
  rw [(connection.step_idles host event).gate]
  unfold enter
  cases arrives : connection.input event with
  | none => exact describes
  | some input =>
      simp only [Option.elim_some]
      cases input with
      | scopes scopes =>
          refine ⟨?_, rfl, fun promise kept => ?_⟩
          · show scopes.alwaysAllowPaths.map PathBuf.ofText = _
            rw [Diary.roots, List.append_nil]
          · have stands := (List.mem_filter.mp kept).2
            rw [decide_eq_true_iff] at stands
            show scopes.capabilities.any _ = true
            exact List.any_eq_true.mpr ⟨_, stands.1, beq_self_eq_true _⟩
      | deliver moment =>
          rw [WsClient.take, WsClient.resume_gate]
          cases connection.client.remembersNext with
          | none =>
              rw [Option.toList_none, List.append_nil]
              exact describes
          | some path =>
              refine ⟨?_, describes.single, describes.granted⟩
              show connection.client.gate.snapshot.alwaysAllowPaths ++ [PathBuf.ofText path] = _
              rw [describes.paths, Diary.roots, Diary.roots, ← List.append_assoc]
              simp
      | answer actionId answer =>
          refine ⟨describes.paths, describes.single, fun promise made => ?_⟩
          rcases List.mem_append.mp made with earlier | new
          · exact describes.granted promise earlier
          · exact connection.promised_granted actionId answer promise (Option.mem_toList.mp new)
      | request moment request =>
          rw [connection.client.take_gate_same host _ (by simp) (by simp)]
          exact describes
      | push moment request =>
          rw [connection.client.take_gate_same host _ (by simp) (by simp)]
          exact describes
      | sweep moment =>
          rw [connection.client.take_gate_same host _ (by simp) (by simp)]
          exact describes

/-- The diary is true throughout a run. -/
theorem describes_run (host : Host) (scopes : Scopes) (checkpoints : Option CheckpointStore)
    (fs : FileSystem) (heartbeatIntervalMs : Nat) (events : List Event) :
    (diaryAfter host (start (.ofScopes scopes) checkpoints fs heartbeatIntervalMs) scopes
      events).Describes (clientAfter host (start (.ofScopes scopes) checkpoints fs
        heartbeatIntervalMs) events).gate := by
  induction events using List.reverseRecOn with
  | nil =>
      refine ⟨?_, rfl, ?_⟩
      · show scopes.alwaysAllowPaths.map PathBuf.ofText = _
        rw [diaryAfter, annotate, Diary.roots, List.append_nil]
      · intro promise made
        cases made
  | append_singleton events event ih =>
      rw [diaryAfter, annotate_concat, clientAfter, run_concat]
      exact describes_step ih host event

/-- A request under a held capability raises a prompt unless it is refused or its path is allowed. -/
theorem raises_none_iff (client : WsClient) (request : ActionRequestFrame)
    {capability path : String} (target : gateTarget request = some (capability, path))
    (holds : client.gate.allows capability = true) :
    client.raises request = none ↔ (client.refusal request).isSome = true ∨
      client.gate.checkPathReal client.fs capability (.ofText path) = .allow := by
  have other : Arm.ofCapability request.capability ≠ .fsRestore := by
    intro restore
    simp [gateTarget, restore] at target
  unfold WsClient.raises
  cases refused : (client.refusal request).isSome with
  | true => simp
  | false => simp [other, target, holds]

section

variable (host : Host) (scopes : Scopes) (checkpoints : Option CheckpointStore) (fs : FileSystem)
  (heartbeatIntervalMs : Nat) (events : List Event)

/-- A promise is kept in a run when no request that asks again raises a prompt. It is kept exactly
when each of these requests is refused before its gate, or its path and the place the path leads to
lie under paths of the last scope frame and of the remembered approvals that were added since. -/
theorem promises_kept_iff :
    let opened := start (.ofScopes scopes) checkpoints fs heartbeatIntervalMs
    (∀ before event rest moment request path, events = before ++ event :: rest →
        (run (step host) opened before).input event = some (.request moment request) →
        (diaryAfter host opened scopes before).AsksAgain request path →
        (clientAfter host opened before).raises request = none) ↔
      ∀ before event rest moment request path, events = before ++ event :: rest →
        (run (step host) opened before).input event = some (.request moment request) →
        (diaryAfter host opened scopes before).AsksAgain request path →
        ((clientAfter host opened before).refusal request).isSome = true ∨
          (diaryAfter host opened scopes before).Covers (clientAfter host opened before).fs
            (.ofText path) := by
  intro opened
  refine forall₃_congr fun before event rest => forall₃_congr fun moment request path => ?_
  refine imp_congr_right fun same => imp_congr_right fun arrives => imp_congr_right fun again => ?_
  obtain ⟨promise, made, target, -⟩ := again
  have describes := describes_run host scopes checkpoints fs heartbeatIntervalMs before
  have holds := describes.granted promise made
  rw [raises_none_iff _ request target holds, describes.allow_iff _ holds]

end

/-- A connection may read in one directory, and a file lies outside it. -/
def rememberStart : Connection :=
  start (.ofScopes ⟨["desktop.fs.read"], ["/w"]⟩) none
    ((FileSystem.empty.put ["etc"] .dir).put ["etc", "a"] (.file [97])) 30000

/-- A second read of the file. -/
def readAgain : ActionRequestFrame := { askedRead with id := "2" }

/-- The owner approves the read and asks to remember it, the read runs, and the server grants the
same scopes over a new connection. -/
def reconnected : List Event :=
  [.frame (.quiet 1) (.actionRequest askedRead),
    .frame (.quiet 2) (.consentResponse ⟨1, "1", true, true⟩), .deliver (.quiet 3), .closed,
    .connected ⟨["desktop.fs.read"], ["/w"]⟩ 30000]

/-- A reconnect discards a remembered approval. -/
theorem promise_forgotten :
    ¬ ∀ (host : Host) (scopes : Scopes) (checkpoints : Option CheckpointStore) (fs : FileSystem)
      (heartbeatIntervalMs : Nat) (events : List Event),
      let opened := start (.ofScopes scopes) checkpoints fs heartbeatIntervalMs
      ∀ before event rest moment request path, events = before ++ event :: rest →
        (run (step host) opened before).input event = some (.request moment request) →
        (diaryAfter host opened scopes before).AsksAgain request path →
        (clientAfter host opened before).raises request = none := by
  intro claim
  have promises : ((diaryAfter .quiet rememberStart ⟨["desktop.fs.read"], ["/w"]⟩
      reconnected).promises.map fun promise => (promise.capability, promise.path)) =
        [("desktop.fs.read", "/etc/a")] := by
    decide
  obtain ⟨promise, only, same⟩ := List.map_eq_singleton_iff.mp promises
  obtain ⟨capability, path⟩ := Prod.mk.inj same
  have silent := claim .quiet ⟨["desktop.fs.read"], ["/w"]⟩ none
    ((FileSystem.empty.put ["etc"] .dir).put ["etc", "a"] (.file [97])) 30000
    (reconnected ++ [.frame (.quiet 4) (.actionRequest readAgain)]) reconnected _ [] (.quiet 4)
    readAgain "/etc/a" rfl
    ((input_request _ _ _ _).mpr ⟨rfl, by decide, by decide⟩)
    ⟨promise, by rw [show (diaryAfter .quiet (start _ _ _ _) _ reconnected).promises = [promise]
      from only]; exact List.mem_singleton_self _, by rw [capability]; rfl, by
      rw [path]; decide⟩
  have prompts : ((clientAfter .quiet rememberStart reconnected).raises readAgain).isSome = true := by
    decide
  rw [show (clientAfter .quiet rememberStart reconnected).raises readAgain = none from silent]
    at prompts
  cases prompts

end Connection

end Daemon
