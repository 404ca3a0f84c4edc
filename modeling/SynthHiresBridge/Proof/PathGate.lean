import SynthHiresBridge.Daemon.WsClient

namespace Daemon

open Posix

namespace WsClient

/-- The gate that an allowed action runs under. -/
def grantedGate (client : WsClient) (request : ActionRequestFrame) (path : String) :
    CapabilityGate :=
  if request.skipConsentPrompt then client.gate.withAdditionalPath (.ofText path)
  else client.gate

/-- A remembered approval adds its path to the gate of the connection. -/
def remembered (client : WsClient) (path : String) (answer : ConsentAnswer) : WsClient :=
  if answer.remember then
    { client with gate := client.gate.withAdditionalPath (.ofText path) }
  else client

/-- The prompt of the path gate. -/
def pathPrompt (request : ActionRequestFrame) (capability path : String) : ConsentPrompt :=
  promptFor request capability (capability ++ " sobre " ++ path) path

/-- The path gate ends in one of these ways. -/
inductive PathGateCase (client : WsClient) (request : ActionRequestFrame)
    (capability path : String) :
    Option ConsentAnswer → Except DaemonError CapabilityGate × WsClient → Prop where
  | missing (decision : Option ConsentAnswer) (lacking : client.gate.allows capability = false) :
      PathGateCase client request capability path decision
        (.error (.capabilityDenied capability), client)
  | allowed (decision : Option ConsentAnswer)
      (granted : client.gate.checkPathReal client.fs capability (.ofText path) = .allow) :
      PathGateCase client request capability path decision
        (.ok (client.grantedGate request path), client)
  | approved (answer : ConsentAnswer) (holds : client.gate.allows capability = true)
      (outside : client.gate.checkPathReal client.fs capability (.ofText path) ≠ .allow)
      (yes : answer.approved = true) :
      PathGateCase client request capability path (some answer)
        (.ok ((client.remembered path answer).gate.withOneShotPath (.ofText path)),
          client.remembered path answer)
  | refused (answer : ConsentAnswer) (holds : client.gate.allows capability = true)
      (outside : client.gate.checkPathReal client.fs capability (.ofText path) ≠ .allow)
      (no : answer.approved = false) :
      PathGateCase client request capability path (some answer)
        (.error (.capabilityDenied ("consentimiento denegado por el usuario para " ++
          capability ++ " sobre " ++ path)), client)
  | prompted (holds : client.gate.allows capability = true)
      (outside : client.gate.checkPathReal client.fs capability (.ofText path) ≠ .allow) :
      PathGateCase client request capability path none
        (.error .awaitingConsent,
          client.raisePrompt request (pathPrompt request capability path))

/-- Every result of the path gate is one of its cases. -/
theorem pathGate_case (client : WsClient) (request : ActionRequestFrame)
    (capability path : String) (decision : Option ConsentAnswer) :
    PathGateCase client request capability path decision
      (client.pathGate request capability path decision) := by
  unfold pathGate
  by_cases holds : client.gate.allows capability = true
  · by_cases granted : client.gate.checkPathReal client.fs capability (.ofText path) = .allow
    · have case : PathGateCase client request capability path decision
          (.ok (client.grantedGate request path), client) := .allowed decision granted
      unfold grantedGate at case
      cases skip : request.skipConsentPrompt <;> simpa [holds, granted, skip] using case
    · simp only [holds, granted, Bool.not_true, Bool.false_eq_true, and_false, if_false]
      cases decision with
      | none => exact .prompted holds granted
      | some answer =>
          cases said : answer.approved with
          | true => simpa [remembered, said] using .approved answer holds granted said
          | false => simpa [said] using .refused answer holds granted said
  · rw [Bool.not_eq_true] at holds
    simpa [holds] using PathGateCase.missing decision holds

@[simp] theorem remembered_fs (client : WsClient) (path : String) (answer : ConsentAnswer) :
    (client.remembered path answer).fs = client.fs := by
  unfold remembered
  split <;> rfl

/-- A remembered approval keeps the capabilities. -/
@[simp] theorem remembered_allows (client : WsClient) (path : String) (answer : ConsentAnswer)
    (capability : String) :
    (client.remembered path answer).gate.allows capability = client.gate.allows capability := by
  unfold remembered
  split <;> rfl

end WsClient

namespace FsOps

/-- The second check passes exactly when its own verdict is to allow. -/
theorem gateForPath_ok_iff (gate : CapabilityGate) (fs : FileSystem) (capability path : String) :
    gateForPath gate fs capability path = .ok () ↔
      if capability = "desktop.fs.read" then gate.checkPath capability (.ofText path) = .allow
      else gate.checkPathReal fs capability (.ofText path) = .allow := by
  unfold gateForPath
  by_cases reading : capability = "desktop.fs.read"
  · subst reading
    simp only [bne_self_eq_false, Bool.false_eq_true, if_false, if_true]
    cases gate.checkPath "desktop.fs.read" (.ofText path) <;> simp
  · simp only [bne_iff_ne, ne_eq, reading, not_false_eq_true, if_true, if_false]
    cases gate.checkPathReal fs capability (.ofText path) <;> simp

/-- A path that the resolved check allows passes the second check. -/
theorem gateForPath_of_checkPathReal (gate : CapabilityGate) (fs : FileSystem)
    (capability path : String)
    (allowed : gate.checkPathReal fs capability (.ofText path) = .allow) :
    gateForPath gate fs capability path = .ok () := by
  rw [gateForPath_ok_iff]
  split
  · exact gate.checkPath_of_checkPathReal fs capability _ allowed
  · exact allowed

end FsOps

namespace WsClient

/-- The gate of an allowed action still allows it. -/
theorem grantedGate_allows (client : WsClient) (request : ActionRequestFrame)
    (capability path : String)
    (granted : client.gate.checkPathReal client.fs capability (.ofText path) = .allow) :
    (client.grantedGate request path).checkPathReal client.fs capability (.ofText path) =
      .allow := by
  unfold grantedGate
  split
  · exact client.gate.checkPathReal_withAdditionalPath client.fs capability _ _ granted
  · exact granted

/-- Both checks agree on an action the path gate lets through: a read always passes the second
check, and any other action passes it when some ancestor of its path resolves. -/
theorem pathGate_agrees (client : WsClient) (request : ActionRequestFrame)
    (capability path : String) (decision : Option ConsentAnswer) (gate : CapabilityGate)
    (forward : (PathBuf.ofText path).hasParentDir = false)
    (passed : (client.pathGate request capability path decision).1 = .ok gate) :
    FsOps.gateForPath gate client.fs capability path = .ok () ↔
      capability = "desktop.fs.read" ∨
        ∃ ancestor ∈ (PathBuf.ofText path).ancestors, ∃ real,
          client.fs.canonicalize ancestor = .ok real := by
  have resolves : (∃ ancestor ∈ (PathBuf.ofText path).ancestors, ∃ real,
      client.fs.canonicalize ancestor = .ok real) ↔
        (client.fs.realAncestor (.ofText path)).isSome := by
    rw [FileSystem.realAncestor, List.findSome?_isSome_iff]
    refine exists_congr fun ancestor => and_congr_right fun _ => ?_
    cases client.fs.canonicalize ancestor <;> simp [Except.toOption]
  rw [resolves]
  have outcome := client.pathGate_case request capability path decision
  generalize client.pathGate request capability path decision = result at outcome passed
  cases outcome with
  | missing => cases passed
  | refused => cases passed
  | prompted => cases passed
  | allowed _ granted =>
      obtain rfl : client.grantedGate request path = gate := Except.ok.inj passed
      have still := client.grantedGate_allows request capability path granted
      have found := ((CapabilityGate.checkPathReal_allow_iff _ _ _ _).mp still).2
      obtain ⟨real, climbed, -⟩ := found
      simp [FsOps.gateForPath_of_checkPathReal _ _ _ _ still, climbed]
  | approved answer holds outside yes =>
      obtain rfl := Except.ok.inj passed
      have kept : (client.remembered path answer).gate.allows capability = true := by
        rw [remembered_allows]
        exact holds
      rw [FsOps.gateForPath_ok_iff]
      split
      · rename_i reading
        have lexical := (CapabilityGate.checkPath_allow_iff
          ((client.remembered path answer).gate.withOneShotPath (.ofText path)) capability
          (.ofText path)).mpr ⟨kept, forward, .inl (by simp)⟩
        simp [reading, ← lexical]
      · rename_i writing
        rw [CapabilityGate.checkPathReal_withOneShotPath _ _ _ _ kept forward]
        simp [writing]

/-- A gate grants capabilities and paths by their texts. -/
def gateOf (capabilities paths : List String) : CapabilityGate := .ofScopes ⟨capabilities, paths⟩

/-- A request carries one path. -/
def pathRequest (id capability path : String) : ActionRequestFrame :=
  ⟨protocolVersion, id, capability, .object [("path", .string path)], none, false⟩

/-- An approved write of an absolute path passes both checks. -/
theorem pathGate_agrees_absolute :
    let client := WsClient.start (gateOf ["desktop.fs.write"] []) none .empty
    FsOps.gateForPath (client.gate.withOneShotPath (.ofText "/notes.txt")) client.fs
      "desktop.fs.write" "/notes.txt" = .ok () :=
  (pathGate_agrees (.start (gateOf ["desktop.fs.write"] []) none .empty)
    (pathRequest "a" "desktop.fs.write" "/notes.txt") "desktop.fs.write" "/notes.txt"
    (some ⟨true, false⟩) _ (by decide) rfl).mpr
    (.inr ⟨⟨.root, [], .plain⟩, by decide, [], rfl⟩)

/-- An approved write of a relative path is refused by the second check, because no ancestor of
the path resolves and the approval is looked at after the climb. -/
theorem pathGate_disagrees :
    ¬ ∀ (client : WsClient) (request : ActionRequestFrame) (capability path : String)
      (decision : Option ConsentAnswer) (gate : CapabilityGate),
      capability ∈ ["desktop.fs.read", "desktop.fs.write", "desktop.fs.delete"] →
      (PathBuf.ofText path).hasParentDir = false →
      (client.pathGate request capability path decision).1 = .ok gate →
      FsOps.gateForPath gate client.fs capability path = .ok () := by
  intro claim
  have accepted := claim (.start (gateOf ["desktop.fs.write"] []) none .empty)
    (pathRequest "a" "desktop.fs.write" "notes.txt") "desktop.fs.write" "notes.txt"
    (some ⟨true, false⟩) _ (by decide) (by decide) rfl
  exact absurd accepted (by decide)

end WsClient

end Daemon
