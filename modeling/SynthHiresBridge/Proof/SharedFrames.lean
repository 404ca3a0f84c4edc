import SynthHiresBridge.Proof.FrameFields

namespace Wire

open Json

/-- A property that only the daemon has is at its default where the frames are the same. -/
def SameHello (android : Android.Hello) (daemon : Daemon.HelloFrame) : Prop :=
  android.v.toInt = daemon.v ∧ android.tokenHash = daemon.tokenHash ∧
    android.fingerprint = daemon.fingerprint ∧ android.deviceKind = daemon.deviceKind.text ∧
    android.deviceName = daemon.deviceName ∧ android.clientVersion = daemon.clientVersion ∧
    android.os = daemon.os ∧ android.arch = daemon.arch ∧ daemon.features = [] ∧
    daemon.consentTimeoutMs = 0 ∧ daemon.tools = []

def SameHelloAck (android : Android.HelloAck) (daemon : Daemon.HelloAckFrame) : Prop :=
  android.v.toInt = daemon.v ∧ android.deviceId = daemon.deviceId ∧
    SameScopes android.scopes daemon.scopes ∧
    android.heartbeatIntervalMs.toInt = daemon.heartbeatIntervalMs

def SameHeartbeat (android : Android.Heartbeat) (daemon : Daemon.HeartbeatFrame) : Prop :=
  android.v.toInt = daemon.v ∧ android.t.toInt = daemon.t

def SameHeartbeatAck (android : Android.HeartbeatAck) (daemon : Daemon.HeartbeatAckFrame) : Prop :=
  android.v.toInt = daemon.v ∧ android.t.toInt = daemon.t

def SameActionRequest (android : Android.ActionRequest) (daemon : Daemon.ActionRequestFrame) :
    Prop :=
  android.v.toInt = daemon.v ∧ android.id = daemon.id ∧ android.capability = daemon.capability ∧
    SameElement (.object android.params) daemon.params ∧
    android.conversationId = daemon.conversationId ∧
    android.skipConsentPrompt = daemon.skipConsentPrompt

def SameActionResult (android : Android.ActionResult) (daemon : Daemon.ActionResultFrame) : Prop :=
  android.v.toInt = daemon.v ∧ android.id = daemon.id ∧ android.ok = daemon.ok ∧
    SameOption SameElement android.output daemon.output ∧
    SameOption SameError android.error daemon.error ∧ android.durationMs.toInt = daemon.durationMs

def SameActionStream (android : Android.ActionStream) (daemon : Daemon.ActionStreamFrame) : Prop :=
  android.v.toInt = daemon.v ∧ android.id = daemon.id ∧ android.seq.toInt = daemon.seq ∧
    android.channel = daemon.channel.text ∧ android.data = daemon.data ∧ android.eof = daemon.eof

def SameConsentPrompt (android : Android.ConsentPrompt) (daemon : Daemon.ConsentPromptFrame) :
    Prop :=
  android.v.toInt = daemon.v ∧ android.id = daemon.id ∧ android.capability = daemon.capability ∧
    android.summary = daemon.summary ∧ android.paramsHash = daemon.paramsHash ∧ daemon.path = none

def SameConsentResponse (android : Android.ConsentResponse) (daemon : Daemon.ConsentResponseFrame) :
    Prop :=
  android.v.toInt = daemon.v ∧ android.id = daemon.id ∧ android.approved = daemon.approved ∧
    android.remember = daemon.remember

def SameScopeUpdate (android : Android.ScopeUpdate) (daemon : Daemon.ScopeUpdateFrame) : Prop :=
  android.v.toInt = daemon.v ∧ SameScopes android.scopes daemon.scopes ∧
    android.reason = daemon.reason

def SameResume (android : Android.Resume) (daemon : Daemon.ResumeFrame) : Prop :=
  android.v.toInt = daemon.v ∧ android.deviceId = daemon.deviceId

def SameRevoke (android : Android.Revoke) (daemon : Daemon.RevokeFrame) : Prop :=
  android.v.toInt = daemon.v ∧ android.reason = daemon.reason

def SameErrorFrame (android : Android.Error) (daemon : Daemon.ErrorFrame) : Prop :=
  android.v.toInt = daemon.v ∧ android.code = daemon.code ∧ android.message = daemon.message ∧
    SameOption SameClose android.close daemon.close

/-- A frame of one side is of the same type as a frame of the other and has its values. -/
def Same : Android.BridgeFrame → Daemon.BridgeFrame → Prop
  | .hello android, .hello daemon => SameHello android daemon
  | .helloAck android, .helloAck daemon => SameHelloAck android daemon
  | .heartbeat android, .heartbeat daemon => SameHeartbeat android daemon
  | .heartbeatAck android, .heartbeatAck daemon => SameHeartbeatAck android daemon
  | .actionRequest android, .actionRequest daemon => SameActionRequest android daemon
  | .actionResult android, .actionResult daemon => SameActionResult android daemon
  | .actionStream android, .actionStream daemon => SameActionStream android daemon
  | .consentPrompt android, .consentPrompt daemon => SameConsentPrompt android daemon
  | .consentResponse android, .consentResponse daemon => SameConsentResponse android daemon
  | .scopeUpdate android, .scopeUpdate daemon => SameScopeUpdate android daemon
  | .resume android, .resume daemon => SameResume android daemon
  | .revoke android, .revoke daemon => SameRevoke android daemon
  | .error android, .error daemon => SameErrorFrame android daemon
  | _, _ => False

/-- The daemon reads a frame of the phone. -/
def ReachesDaemon : Android.BridgeFrame → Prop
  | .hello frame => Versioned frame.v ∧ frame.deviceKind = "desktop" ∧ frame.os ≠ "android"
  | .helloAck frame => Versioned frame.v ∧ 0 ≤ frame.heartbeatIntervalMs.toInt
  | .heartbeat frame => Versioned frame.v ∧ 0 ≤ frame.t.toInt
  | .heartbeatAck frame => Versioned frame.v ∧ 0 ≤ frame.t.toInt
  | .actionRequest frame => Versioned frame.v ∧ (Value.object frame.params).depth ≤ 126
  | .actionResult frame => Versioned frame.v ∧ frame.output ≠ some .null ∧
      0 < frame.durationMs.toInt ∧ ∀ output ∈ frame.output, output.depth ≤ 126
  | .actionStream frame => Versioned frame.v ∧ 0 ≤ frame.seq.toInt ∧
      (frame.channel = "stdout" ∨ frame.channel = "stderr" ∨ frame.channel = "log")
  | .consentPrompt frame => Versioned frame.v
  | .consentResponse frame => Versioned frame.v
  | .scopeUpdate frame => Versioned frame.v
  | .resume frame => Versioned frame.v
  | .revoke frame => Versioned frame.v
  | .error frame => Versioned frame.v ∧ ∀ code ∈ frame.close, 0 ≤ code.toInt ∧ code.toInt < 2 ^ 16

/-- The phone reads a frame of the daemon, and it has no cancel. -/
def ReachesAndroid : Daemon.BridgeFrame → Prop
  | .hello frame => frame.v < 2 ^ 31 ∧ frame.features = [] ∧ frame.consentTimeoutMs = 0 ∧
      frame.tools = []
  | .helloAck frame => frame.v < 2 ^ 31 ∧ frame.heartbeatIntervalMs < 2 ^ 63
  | .heartbeat frame => frame.v < 2 ^ 31 ∧ frame.t < 2 ^ 63
  | .heartbeatAck frame => frame.v < 2 ^ 31 ∧ frame.t < 2 ^ 63
  | .actionRequest frame => frame.v < 2 ^ 31 ∧ frame.params.isObject = true
  | .actionCancel _ => True
  | .actionResult frame => frame.v < 2 ^ 31 ∧ frame.output ≠ some .null ∧ frame.durationMs < 2 ^ 63
  | .actionStream frame => frame.v < 2 ^ 31 ∧ frame.seq < 2 ^ 63
  | .consentPrompt frame => frame.v < 2 ^ 31 ∧ frame.path = none
  | .consentResponse frame => frame.v < 2 ^ 31
  | .scopeUpdate frame => frame.v < 2 ^ 31
  | .resume frame => frame.v < 2 ^ 31
  | .revoke frame => frame.v < 2 ^ 31
  | .error frame => frame.v < 2 ^ 31

section Daemon

theorem hello_reaches_daemon (frame : Android.Hello) :
    Reads (Daemon.HelloFrame.ofValue (.object (written frame.properties))) (SameHello frame) ↔
      Versioned frame.v ∧ frame.deviceKind = "desktop" ∧ frame.os ≠ "android" := by
  rw [Daemon.HelloFrame.ofValue, reads_readFields (by simp [Android.Hello.properties]),
    ← sent_deviceKind]
  simp [Android.Hello.properties, List.lookup_cons, SameHello, Versioned]

theorem helloAck_reaches_daemon (frame : Android.HelloAck) :
    Reads (Daemon.HelloAckFrame.ofValue (.object (written frame.properties))) (SameHelloAck frame) ↔
      Versioned frame.v ∧ 0 ≤ frame.heartbeatIntervalMs.toInt := by
  rw [Daemon.HelloAckFrame.ofValue, reads_readFields (by simp [Android.HelloAck.properties])]
  simp [Android.HelloAck.properties, List.lookup_cons, SameHelloAck, Versioned]

theorem heartbeat_reaches_daemon (frame : Android.Heartbeat) :
    Reads (Daemon.HeartbeatFrame.ofValue (.object (written frame.properties)))
      (SameHeartbeat frame) ↔
      Versioned frame.v ∧ 0 ≤ frame.t.toInt := by
  rw [Daemon.HeartbeatFrame.ofValue, reads_readFields (by simp [Android.Heartbeat.properties])]
  simp [Android.Heartbeat.properties, List.lookup_cons, SameHeartbeat, Versioned]

theorem heartbeatAck_reaches_daemon (frame : Android.HeartbeatAck) :
    Reads (Daemon.HeartbeatAckFrame.ofValue (.object (written frame.properties)))
      (SameHeartbeatAck frame) ↔
      Versioned frame.v ∧ 0 ≤ frame.t.toInt := by
  rw [Daemon.HeartbeatAckFrame.ofValue,
    reads_readFields (by simp [Android.HeartbeatAck.properties])]
  simp [Android.HeartbeatAck.properties, List.lookup_cons, SameHeartbeatAck, Versioned]

theorem actionRequest_reaches_daemon (frame : Android.ActionRequest) :
    Reads (Daemon.ActionRequestFrame.ofValue (.object (written frame.properties)))
      (SameActionRequest frame) ↔
      Versioned frame.v := by
  rw [Daemon.ActionRequestFrame.ofValue,
    reads_readFields (by simp [Android.ActionRequest.properties])]
  simp [Android.ActionRequest.properties, List.lookup_cons, SameActionRequest, Versioned]

theorem actionResult_reaches_daemon (frame : Android.ActionResult) :
    Reads (Daemon.ActionResultFrame.ofValue (.object (written frame.properties)))
      (SameActionResult frame) ↔
      Versioned frame.v ∧ frame.output ≠ some .null ∧ 0 < frame.durationMs.toInt := by
  rw [Daemon.ActionResultFrame.ofValue,
    reads_readFields (by simp [Android.ActionResult.properties]),
    ← sent_durationMs]
  simp [Android.ActionResult.properties, List.lookup_cons, SameActionResult, Versioned]

theorem actionStream_reaches_daemon (frame : Android.ActionStream) :
    Reads (Daemon.ActionStreamFrame.ofValue (.object (written frame.properties)))
      (SameActionStream frame) ↔
      Versioned frame.v ∧ 0 ≤ frame.seq.toInt ∧
        (frame.channel = "stdout" ∨ frame.channel = "stderr" ∨ frame.channel = "log") := by
  rw [Daemon.ActionStreamFrame.ofValue,
    reads_readFields (by simp [Android.ActionStream.properties])]
  simp [Android.ActionStream.properties, List.lookup_cons, SameActionStream, Versioned]

theorem consentPrompt_reaches_daemon (frame : Android.ConsentPrompt) :
    Reads (Daemon.ConsentPromptFrame.ofValue (.object (written frame.properties)))
      (SameConsentPrompt frame) ↔
      Versioned frame.v := by
  rw [Daemon.ConsentPromptFrame.ofValue,
    reads_readFields (by simp [Android.ConsentPrompt.properties])]
  simp [Android.ConsentPrompt.properties, List.lookup_cons, SameConsentPrompt, Versioned]

theorem consentResponse_reaches_daemon (frame : Android.ConsentResponse) :
    Reads (Daemon.ConsentResponseFrame.ofValue (.object (written frame.properties)))
      (SameConsentResponse frame) ↔
      Versioned frame.v := by
  rw [Daemon.ConsentResponseFrame.ofValue,
    reads_readFields (by simp [Android.ConsentResponse.properties])]
  simp [Android.ConsentResponse.properties, List.lookup_cons, SameConsentResponse, Versioned]

theorem scopeUpdate_reaches_daemon (frame : Android.ScopeUpdate) :
    Reads (Daemon.ScopeUpdateFrame.ofValue (.object (written frame.properties)))
      (SameScopeUpdate frame) ↔
      Versioned frame.v := by
  rw [Daemon.ScopeUpdateFrame.ofValue, reads_readFields (by simp [Android.ScopeUpdate.properties])]
  simp [Android.ScopeUpdate.properties, List.lookup_cons, SameScopeUpdate, Versioned]

theorem resume_reaches_daemon (frame : Android.Resume) :
    Reads (Daemon.ResumeFrame.ofValue (.object (written frame.properties))) (SameResume frame) ↔
      Versioned frame.v := by
  rw [Daemon.ResumeFrame.ofValue, reads_readFields (by simp [Android.Resume.properties])]
  simp [Android.Resume.properties, List.lookup_cons, SameResume, Versioned]

theorem revoke_reaches_daemon (frame : Android.Revoke) :
    Reads (Daemon.RevokeFrame.ofValue (.object (written frame.properties))) (SameRevoke frame) ↔
      Versioned frame.v := by
  rw [Daemon.RevokeFrame.ofValue, reads_readFields (by simp [Android.Revoke.properties])]
  simp [Android.Revoke.properties, List.lookup_cons, SameRevoke, Versioned]

theorem error_reaches_daemon (frame : Android.Error) :
    Reads (Daemon.ErrorFrame.ofValue (.object (written frame.properties))) (SameErrorFrame frame) ↔
      Versioned frame.v ∧ ∀ code ∈ frame.close, 0 ≤ code.toInt ∧ code.toInt < 2 ^ 16 := by
  rw [Daemon.ErrorFrame.ofValue, reads_readFields (by simp [Android.Error.properties])]
  simp [Android.Error.properties, List.lookup_cons, SameErrorFrame, Versioned]

/-- An element is nested no deeper than the daemon reads it within its frame. -/
def Shallow : Android.BridgeFrame → Prop
  | .actionRequest frame => (Value.object frame.params).depth ≤ 126
  | .actionResult frame => ∀ output ∈ frame.output, output.depth ≤ 126
  | _ => True

/-- Only elements make a frame deep. -/
theorem depth_encodeToString (frame : Android.BridgeFrame) :
    frame.encodeToString.depth ≤ 127 ↔ Shallow frame := by
  have inside : frame.encodeToString.depth ≤ 127 ↔
      ∀ field ∈ frame.properties, ∀ value ∈ field.2, value.depth ≤ 126 := by
    rw [← depth_written, Android.BridgeFrame.encodeToString, Value.depth, Value.entriesDepth,
      Value.depth]
    omega
  rw [inside]
  cases frame <;> simp [Android.BridgeFrame.properties, Android.Hello.properties,
    Android.HelloAck.properties, Android.Heartbeat.properties, Android.HeartbeatAck.properties,
    Android.ActionRequest.properties, Android.ActionResult.properties,
    Android.ActionStream.properties, Android.ConsentPrompt.properties,
    Android.ConsentResponse.properties, Android.ScopeUpdate.properties, Android.Resume.properties,
    Android.Revoke.properties, Android.Error.properties, Android.int32, Android.int64, Shallow]

theorem untagged_properties (frame : Android.BridgeFrame) :
    "kind" ∉ frame.properties.map Prod.fst := by
  cases frame <;> simp [Android.BridgeFrame.properties, Android.Hello.properties,
    Android.HelloAck.properties, Android.Heartbeat.properties, Android.HeartbeatAck.properties,
    Android.ActionRequest.properties, Android.ActionResult.properties,
    Android.ActionStream.properties, Android.ConsentPrompt.properties,
    Android.ConsentResponse.properties, Android.ScopeUpdate.properties, Android.Resume.properties,
    Android.Revoke.properties, Android.Error.properties]

/-- The daemon reads the text of a phone by its tag, unless it is too deep. -/
theorem reads_fromStr (frame : Android.BridgeFrame) {Meant : Daemon.BridgeFrame → Prop} :
    Reads (Daemon.BridgeFrame.fromStr frame.encodeToString) Meant ↔
      Shallow frame ∧ Reads (Daemon.BridgeFrame.ofTagged frame.serialName
        (.object (written frame.properties))) Meant := by
  rw [← depth_encodeToString, Daemon.BridgeFrame.fromStr]
  split
  · rename_i shallow
    rw [and_iff_right shallow, Daemon.BridgeFrame.ofValue, Android.BridgeFrame.encodeToString,
      tagged_written _ (untagged_properties frame), Option.bind_some]
  · rename_i deep
    exact iff_of_false not_reads_none fun both => deep both.1

theorem reaches_daemon (frame : Android.BridgeFrame) :
    Reads (Daemon.BridgeFrame.fromStr frame.encodeToString) (Same frame) ↔ ReachesDaemon frame := by
  rw [reads_fromStr]
  cases frame with
  | hello frame =>
      exact (and_iff_right trivial).trans (reads_map.trans (hello_reaches_daemon frame))
  | helloAck frame =>
      exact (and_iff_right trivial).trans (reads_map.trans (helloAck_reaches_daemon frame))
  | heartbeat frame =>
      exact (and_iff_right trivial).trans (reads_map.trans (heartbeat_reaches_daemon frame))
  | heartbeatAck frame =>
      exact (and_iff_right trivial).trans (reads_map.trans (heartbeatAck_reaches_daemon frame))
  | actionRequest frame =>
      refine and_comm.trans (and_congr_left' ?_)
      exact reads_map.trans (actionRequest_reaches_daemon frame)
  | actionResult frame =>
      refine and_comm.trans
        (Iff.trans (and_congr_left' ?_) (and_assoc.trans (and_congr_right' and_assoc)))
      exact reads_map.trans (actionResult_reaches_daemon frame)
  | actionStream frame =>
      exact (and_iff_right trivial).trans (reads_map.trans (actionStream_reaches_daemon frame))
  | consentPrompt frame =>
      exact (and_iff_right trivial).trans (reads_map.trans (consentPrompt_reaches_daemon frame))
  | consentResponse frame =>
      exact (and_iff_right trivial).trans (reads_map.trans (consentResponse_reaches_daemon frame))
  | scopeUpdate frame =>
      exact (and_iff_right trivial).trans (reads_map.trans (scopeUpdate_reaches_daemon frame))
  | resume frame =>
      exact (and_iff_right trivial).trans (reads_map.trans (resume_reaches_daemon frame))
  | revoke frame =>
      exact (and_iff_right trivial).trans (reads_map.trans (revoke_reaches_daemon frame))
  | error frame =>
      exact (and_iff_right trivial).trans (reads_map.trans (error_reaches_daemon frame))

end Daemon

section Android

theorem hello_reaches_android (frame : Daemon.HelloFrame) (name : Value) :
    (Reads (Android.Hello.ofValue (.object (("kind", name) :: written frame.fields)))
      fun held => SameHello held frame) ↔
      frame.v < 2 ^ 31 ∧ frame.features = [] ∧ frame.consentTimeoutMs = 0 ∧ frame.tools = [] := by
  rw [Android.Hello.ofValue, reads_readTagged (by simp [Daemon.HelloFrame.fields]) (by decide)]
  simp [Daemon.HelloFrame.fields, List.lookup_cons, SameHello]

theorem helloAck_reaches_android (frame : Daemon.HelloAckFrame) (name : Value) :
    (Reads (Android.HelloAck.ofValue (.object (("kind", name) :: written frame.fields)))
      fun held => SameHelloAck held frame) ↔
      frame.v < 2 ^ 31 ∧ frame.heartbeatIntervalMs < 2 ^ 63 := by
  rw [Android.HelloAck.ofValue,
    reads_readTagged (by simp [Daemon.HelloAckFrame.fields]) (by decide)]
  simp [Daemon.HelloAckFrame.fields, List.lookup_cons, SameHelloAck]

theorem heartbeat_reaches_android (frame : Daemon.HeartbeatFrame) (name : Value) :
    (Reads (Android.Heartbeat.ofValue (.object (("kind", name) :: written frame.fields)))
      fun held => SameHeartbeat held frame) ↔
      frame.v < 2 ^ 31 ∧ frame.t < 2 ^ 63 := by
  rw [Android.Heartbeat.ofValue,
    reads_readTagged (by simp [Daemon.HeartbeatFrame.fields]) (by decide)]
  simp [Daemon.HeartbeatFrame.fields, List.lookup_cons, SameHeartbeat]

theorem heartbeatAck_reaches_android (frame : Daemon.HeartbeatAckFrame) (name : Value) :
    (Reads (Android.HeartbeatAck.ofValue (.object (("kind", name) :: written frame.fields)))
      fun held => SameHeartbeatAck held frame) ↔
      frame.v < 2 ^ 31 ∧ frame.t < 2 ^ 63 := by
  rw [Android.HeartbeatAck.ofValue,
    reads_readTagged (by simp [Daemon.HeartbeatAckFrame.fields]) (by decide)]
  simp [Daemon.HeartbeatAckFrame.fields, List.lookup_cons, SameHeartbeatAck]

theorem actionRequest_reaches_android (frame : Daemon.ActionRequestFrame) (name : Value) :
    (Reads (Android.ActionRequest.ofValue (.object (("kind", name) :: written frame.fields)))
      fun held => SameActionRequest held frame) ↔
      frame.v < 2 ^ 31 ∧ frame.params.isObject = true := by
  rw [Android.ActionRequest.ofValue,
    reads_readTagged (by simp [Daemon.ActionRequestFrame.fields]) (by decide)]
  simp [Daemon.ActionRequestFrame.fields, List.lookup_cons, SameActionRequest]

theorem actionResult_reaches_android (frame : Daemon.ActionResultFrame) (name : Value) :
    (Reads (Android.ActionResult.ofValue (.object (("kind", name) :: written frame.fields)))
      fun held => SameActionResult held frame) ↔
      frame.v < 2 ^ 31 ∧ frame.output ≠ some .null ∧ frame.durationMs < 2 ^ 63 := by
  rw [Android.ActionResult.ofValue,
    reads_readTagged (by simp [Daemon.ActionResultFrame.fields]) (by decide)]
  simp [Daemon.ActionResultFrame.fields, List.lookup_cons, SameActionResult]

theorem actionStream_reaches_android (frame : Daemon.ActionStreamFrame) (name : Value) :
    (Reads (Android.ActionStream.ofValue (.object (("kind", name) :: written frame.fields)))
      fun held => SameActionStream held frame) ↔
      frame.v < 2 ^ 31 ∧ frame.seq < 2 ^ 63 := by
  rw [Android.ActionStream.ofValue,
    reads_readTagged (by simp [Daemon.ActionStreamFrame.fields]) (by decide)]
  simp [Daemon.ActionStreamFrame.fields, List.lookup_cons, SameActionStream]

theorem consentPrompt_reaches_android (frame : Daemon.ConsentPromptFrame) (name : Value) :
    (Reads (Android.ConsentPrompt.ofValue (.object (("kind", name) :: written frame.fields)))
      fun held => SameConsentPrompt held frame) ↔
      frame.v < 2 ^ 31 ∧ frame.path = none := by
  rw [Android.ConsentPrompt.ofValue,
    reads_readTagged (by simp [Daemon.ConsentPromptFrame.fields]) (by decide)]
  simp [Daemon.ConsentPromptFrame.fields, List.lookup_cons, SameConsentPrompt]

theorem consentResponse_reaches_android (frame : Daemon.ConsentResponseFrame) (name : Value) :
    (Reads (Android.ConsentResponse.ofValue (.object (("kind", name) :: written frame.fields)))
      fun held => SameConsentResponse held frame) ↔
      frame.v < 2 ^ 31 := by
  rw [Android.ConsentResponse.ofValue,
    reads_readTagged (by simp [Daemon.ConsentResponseFrame.fields]) (by decide)]
  simp [Daemon.ConsentResponseFrame.fields, List.lookup_cons, SameConsentResponse]

theorem scopeUpdate_reaches_android (frame : Daemon.ScopeUpdateFrame) (name : Value) :
    (Reads (Android.ScopeUpdate.ofValue (.object (("kind", name) :: written frame.fields)))
      fun held => SameScopeUpdate held frame) ↔
      frame.v < 2 ^ 31 := by
  rw [Android.ScopeUpdate.ofValue,
    reads_readTagged (by simp [Daemon.ScopeUpdateFrame.fields]) (by decide)]
  simp [Daemon.ScopeUpdateFrame.fields, List.lookup_cons, SameScopeUpdate]

theorem resume_reaches_android (frame : Daemon.ResumeFrame) (name : Value) :
    (Reads (Android.Resume.ofValue (.object (("kind", name) :: written frame.fields)))
      fun held => SameResume held frame) ↔
      frame.v < 2 ^ 31 := by
  rw [Android.Resume.ofValue, reads_readTagged (by simp [Daemon.ResumeFrame.fields]) (by decide)]
  simp [Daemon.ResumeFrame.fields, List.lookup_cons, SameResume]

theorem revoke_reaches_android (frame : Daemon.RevokeFrame) (name : Value) :
    (Reads (Android.Revoke.ofValue (.object (("kind", name) :: written frame.fields)))
      fun held => SameRevoke held frame) ↔
      frame.v < 2 ^ 31 := by
  rw [Android.Revoke.ofValue, reads_readTagged (by simp [Daemon.RevokeFrame.fields]) (by decide)]
  simp [Daemon.RevokeFrame.fields, List.lookup_cons, SameRevoke]

theorem error_reaches_android (frame : Daemon.ErrorFrame) (name : Value) :
    (Reads (Android.Error.ofValue (.object (("kind", name) :: written frame.fields)))
      fun held => SameErrorFrame held frame) ↔
      frame.v < 2 ^ 31 := by
  rw [Android.Error.ofValue, reads_readTagged (by simp [Daemon.ErrorFrame.fields]) (by decide)]
  simp [Daemon.ErrorFrame.fields, List.lookup_cons, SameErrorFrame]

theorem decodeFromString_toValue (frame : Daemon.BridgeFrame) :
    Android.BridgeFrame.decodeFromString frame.toValue =
      Android.BridgeFrame.ofSerialName frame.kind frame.toValue := by
  rw [Android.BridgeFrame.decodeFromString, Daemon.BridgeFrame.toValue, Value.get, List.lookup_cons,
    beq_self_eq_true]
  rfl

end Android

inductive Sent where
  | android (frame : Android.BridgeFrame)
  | daemon (frame : Daemon.BridgeFrame)

/-- The other side reads a frame of the same type with the same values. -/
def Sent.Arrives : Sent → Prop
  | .android frame => Reads (Daemon.BridgeFrame.fromStr frame.encodeToString) (Same frame)
  | .daemon frame => (∃ cancel, frame = .actionCancel cancel) ∨
      Reads (Android.BridgeFrame.decodeFromString frame.toValue) fun held => Same held frame

def Sent.Sound : Sent → Prop
  | .android frame => ReachesDaemon frame
  | .daemon frame => ReachesAndroid frame

theorem reaches_android (frame : Daemon.BridgeFrame) :
    (Sent.daemon frame).Arrives ↔ ReachesAndroid frame := by
  rw [Sent.Arrives, decodeFromString_toValue]
  cases frame with
  | actionCancel frame => exact iff_of_true (.inl ⟨frame, rfl⟩) trivial
  | hello frame =>
      exact (or_iff_right nofun).trans (reads_map.trans (hello_reaches_android frame _))
  | helloAck frame =>
      exact (or_iff_right nofun).trans (reads_map.trans (helloAck_reaches_android frame _))
  | heartbeat frame =>
      exact (or_iff_right nofun).trans (reads_map.trans (heartbeat_reaches_android frame _))
  | heartbeatAck frame =>
      exact (or_iff_right nofun).trans (reads_map.trans (heartbeatAck_reaches_android frame _))
  | actionRequest frame =>
      exact (or_iff_right nofun).trans (reads_map.trans (actionRequest_reaches_android frame _))
  | actionResult frame =>
      exact (or_iff_right nofun).trans (reads_map.trans (actionResult_reaches_android frame _))
  | actionStream frame =>
      exact (or_iff_right nofun).trans (reads_map.trans (actionStream_reaches_android frame _))
  | consentPrompt frame =>
      exact (or_iff_right nofun).trans (reads_map.trans (consentPrompt_reaches_android frame _))
  | consentResponse frame =>
      exact (or_iff_right nofun).trans (reads_map.trans (consentResponse_reaches_android frame _))
  | scopeUpdate frame =>
      exact (or_iff_right nofun).trans (reads_map.trans (scopeUpdate_reaches_android frame _))
  | resume frame =>
      exact (or_iff_right nofun).trans (reads_map.trans (resume_reaches_android frame _))
  | revoke frame =>
      exact (or_iff_right nofun).trans (reads_map.trans (revoke_reaches_android frame _))
  | error frame =>
      exact (or_iff_right nofun).trans (reads_map.trans (error_reaches_android frame _))

/-- A result that the service sends on its own. -/
def refusal : Android.ActionResult :=
  ⟨Android.protocolVersion, "a1", false, none, some ⟨"action_failed", "capability_not_granted"⟩, 0⟩

end Wire
