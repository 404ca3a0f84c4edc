import SynthHiresBridge.Daemon.Checkpoint
import SynthHiresBridge.Daemon.Consent
import SynthHiresBridge.Daemon.Params

namespace Daemon

open Json Posix

/-- A parked action keeps its request and the time it was parked. -/
structure ParkedAction where
  frame : ActionRequestFrame
  parkedAt : Nat

/-- The client keeps the gate, the broker, the parked actions, the undo store, the disk it works on
and the frames it sent. -/
structure WsClient where
  gate : CapabilityGate
  consent : ConsentBroker
  parked : AList fun _ : String => ParkedAction
  checkpoints : Option CheckpointStore
  fs : FileSystem
  sent : List SentFrame

/-- An action ends with a result frame, or it waits for the owner. -/
inductive Outcome where
  | answered
  | awaitingConsent
  deriving DecidableEq

/-- The text of `op` in the parameters. -/
def ActionRequestFrame.op (request : ActionRequestFrame) : Option String :=
  (request.params.get "op").bind Value.asStr

/-- A composite action needs the capability of its parent, and `self` marks the action that checks
its own. -/
def requiredScope (request : ActionRequestFrame) : String :=
  match request.capability with
  | "desktop.fs.patch" | "desktop.code.ast_edit" => "desktop.fs.write"
  | "desktop.code.ast_grep" => "desktop.fs.read"
  | "desktop.code.eval" | "desktop.lsp.rename" => "desktop.shell.execute"
  | "desktop.lsp.diagnostics" | "desktop.lsp.hover" | "desktop.lsp.definition" => "desktop.fs.read"
  | "desktop.memory.recall" | "desktop.memory.stats" => "desktop.fs.read"
  | "desktop.git.overview" | "desktop.git.diff" => "desktop.fs.read"
  | "desktop.tools.manifest" => "desktop.fs.read"
  | "desktop.memory.remember" | "desktop.memory.forget" | "desktop.memory.reflect" =>
      "desktop.fs.write"
  | "desktop.proc.op" => match request.op with
      | some "signal" => "desktop.process.kill"
      | some "probe" => "desktop.network.fetch"
      | some "start" => "desktop.shell.execute"
      | _ => "desktop.fs.read"
  | "desktop.pty.op" => "desktop.shell.execute"
  | "desktop.browser.launch" | "desktop.browser.nav" => "desktop.network.fetch"
  | "desktop.browser.act" => "desktop.shell.execute"
  | "desktop.browser.snapshot" | "desktop.browser.shot" | "desktop.browser.wait"
  | "desktop.browser.close" | "desktop.browser.eval" => "desktop.fs.read"
  | "desktop.browser.tab_open" | "desktop.browser.tab_select" | "desktop.browser.tab_close"
  | "desktop.browser.mock_set" => "desktop.network.fetch"
  | "desktop.browser.tab_list" => "desktop.fs.read"
  | "desktop.os.snapshot" | "desktop.os.apps" | "desktop.os.available" => "desktop.fs.read"
  | "desktop.os.act" => "desktop.shell.execute"
  | "desktop.mcp.op" => match request.op with
      | some "status" => "desktop.fs.read"
      | some "stop" => "desktop.process.kill"
      | _ => "desktop.shell.execute"
  | "desktop.debug.op" => match request.op with
      | some "start" | some "eval" | some "continue" | some "step" | some "pause" =>
          "desktop.shell.execute"
      | _ => "desktop.fs.read"
  | "desktop.checkpoint.list" => "desktop.fs.read"
  | "desktop.fs.restore" => "self"
  | other => other

/-- The dispatch sends a capability to one of these arms. The operations of the other engines share
one arm. -/
inductive Arm where
  | fsRead
  | fsPatch
  | fsWrite
  | astEdit
  | lspRename
  | fsDelete
  | fsRestore
  | checkpointList
  | fsVerify
  | fsList
  | fsWatch
  | engine
  | notImplemented
  deriving DecidableEq

def Arm.ofCapability : String → Arm
  | "desktop.fs.read" => .fsRead
  | "desktop.fs.patch" => .fsPatch
  | "desktop.fs.write" => .fsWrite
  | "desktop.code.ast_edit" => .astEdit
  | "desktop.lsp.rename" => .lspRename
  | "desktop.fs.delete" => .fsDelete
  | "desktop.fs.restore" => .fsRestore
  | "desktop.checkpoint.list" => .checkpointList
  | "desktop.fs.verify" => .fsVerify
  | "desktop.fs.list" => .fsList
  | "desktop.fs.watch" => .fsWatch
  | "desktop.code.ast_grep" | "desktop.code.eval" | "desktop.lsp.diagnostics"
  | "desktop.lsp.hover" | "desktop.lsp.definition" | "desktop.memory.remember"
  | "desktop.memory.recall" | "desktop.memory.forget" | "desktop.memory.reflect"
  | "desktop.memory.stats" | "desktop.proc.op" | "desktop.pty.op" | "desktop.browser.launch"
  | "desktop.browser.nav" | "desktop.browser.snapshot" | "desktop.browser.act"
  | "desktop.browser.shot" | "desktop.browser.wait" | "desktop.browser.eval" | "desktop.debug.op"
  | "desktop.mcp.op" | "desktop.browser.close" | "desktop.os.available" | "desktop.os.apps"
  | "desktop.os.snapshot" | "desktop.os.act" | "desktop.browser.tab_open"
  | "desktop.browser.tab_select" | "desktop.browser.tab_close" | "desktop.browser.tab_list"
  | "desktop.browser.mock_set" | "desktop.git.overview" | "desktop.tools.manifest"
  | "desktop.git.diff" | "desktop.process.list" | "desktop.process.kill"
  | "desktop.network.fetch" | "desktop.shell.execute" => .engine
  | _ => .notImplemented

/-- A shell command that holds one of these patterns is stopped. -/
def dangerousPatterns : List String :=
  ["sudo ", "sudo\t", "rm -rf", "rm -fr", "rm --no-preserve-root", "del /f", "del /s",
    "remove-item", "mkfs", "mkfs.", "dd ", "of=/dev/", ":()\x7b", "chmod -r", "chmod 777",
    "chown -r", "format c:", "diskpart", "shutdown ", "powershell -enc",
    "powershell -encodedcommand"]

def containsDangerousShell (command : String) : Bool :=
  let lower := String.ofList (command.toList.map Char.toLower)
  let normalised := Text.replace (Text.replace (Text.replace lower "$\x7bifs\x7d" " ") "$ifs" " ")
    "\t" " "
  dangerousPatterns.any (Text.contains normalised)

namespace WsClient

/-- A client starts with nothing parked, nothing on screen and nothing sent. -/
def start (gate : CapabilityGate) (checkpoints : Option CheckpointStore) (fs : FileSystem) :
    WsClient where
  gate := gate
  consent := .empty
  parked := ∅
  checkpoints := checkpoints
  fs := fs
  sent := []

def send (client : WsClient) (frame : SentFrame) : WsClient :=
  { client with sent := client.sent ++ [frame] }

def sendActionResult (client : WsClient) (actionId : String) (ok : Bool) (output : Option Value)
    (error : Option String) (durationMs : Nat) : WsClient :=
  client.send (.actionResult ⟨protocolVersion, actionId, ok, output,
    error.map fun message =>
      ⟨if message = "action_cancelled" then "action_cancelled" else "action_failed", message⟩,
    durationMs⟩)

def sendError (client : WsClient) (actionId error : String) : WsClient :=
  client.sendActionResult actionId false none (some error) 0

/-- The summary of a prompt names the capability and the path. -/
def promptFor (request : ActionRequestFrame) (capability summary path : String) : ConsentPrompt :=
  ⟨request.id, capability, summary, some path⟩

/-- A prompt goes to the web and to the local broker. -/
def raisePrompt (client : WsClient) (request : ActionRequestFrame) (prompt : ConsentPrompt) :
    WsClient :=
  let client := client.send (.consentPrompt
    ⟨protocolVersion, prompt.actionId, prompt.capability, prompt.summary, "", prompt.path⟩)
  { client with consent := client.consent.ask prompt request }

/-- The path gate gives the gate an action runs under, or it refuses the action, or it raises a
prompt for it. -/
def pathGate (client : WsClient) (request : ActionRequestFrame) (capability path : String)
    (decision : Option ConsentAnswer) : Except DaemonError CapabilityGate × WsClient :=
  let target := PathBuf.ofText path
  if !client.gate.allows capability then (.error (.capabilityDenied capability), client)
  else if request.skipConsentPrompt ∧
      client.gate.checkPathReal client.fs capability target = .allow then
    (.ok (client.gate.withAdditionalPath target), client)
  else if client.gate.checkPathReal client.fs capability target = .allow then
    (.ok client.gate, client)
  else match decision with
    | some answer =>
        if answer.approved then
          let client := if answer.remember then
              { client with gate := client.gate.withAdditionalPath target }
            else client
          (.ok (client.gate.withOneShotPath target), client)
        else (.error (.capabilityDenied ("consentimiento denegado por el usuario para " ++
          capability ++ " sobre " ++ path)), client)
    | none => (.error .awaitingConsent, client.raisePrompt request
        (promptFor request capability (capability ++ " sobre " ++ path) path))

/-- The pre-image of a path is captured before an action changes it. -/
def checkpointBefore (host : Host) (moment : Moment) (client : WsClient)
    (request : ActionRequestFrame) (path : String) : Except String Unit × WsClient :=
  match client.checkpoints with
  | none => (.ok (), client)
  | some store => match store.capture host moment.storeFault client.fs moment.captureAt request.id
        request.capability path with
      | (.ok _, store) => (.ok (), { client with checkpoints := some store })
      | (.error reason, store) =>
          (.error ("checkpoint failed (mutation refused): " ++ reason),
            { client with checkpoints := some store })

/-- An operation answers with its output or with its error. -/
def reply (client : WsClient) (moment : Moment) (request : ActionRequestFrame)
    (result : Except DaemonError Value) : WsClient :=
  match result with
  | .ok output => client.sendActionResult request.id true (some output) none moment.elapsed
  | .error error => client.sendError request.id error.text

/-- A verified operation also fails when its read-back differs. -/
def replyVerified (client : WsClient) (moment : Moment) (request : ActionRequestFrame)
    (mismatch : String) (result : Except DaemonError (Bool × Value)) : WsClient :=
  match result with
  | .ok (verified, output) => client.sendActionResult request.id verified (some output)
      (if verified then none else some mismatch) moment.elapsed
  | .error error => client.sendError request.id error.text

/-- A mutation runs after its pre-image is captured. -/
def mutate (client : WsClient) (host : Host) (moment : Moment) (request : ActionRequestFrame)
    (path : String) (run : WsClient → WsClient) : WsClient :=
  match client.checkpointBefore host moment request path with
  | (.ok _, client) => run client
  | (.error reason, client) => client.sendError request.id reason

/-- An arm runs its operation behind the path gate, and the mark of a parked action passes. -/
def gated (client : WsClient) (request : ActionRequestFrame) (capability path : String)
    (decision : Option ConsentAnswer) (run : CapabilityGate → WsClient → WsClient) :
    WsClient × Outcome :=
  match client.pathGate request capability path decision with
  | (.ok gate, client) => (run gate client, .answered)
  | (.error .awaitingConsent, client) => (client, .awaitingConsent)
  | (.error error, client) => (client.sendError request.id error.text, .answered)

/-- An arm answers parameters that do not fit with an error. -/
def badParams (client : WsClient) (host : Host) (request : ActionRequestFrame) (name : String) :
    WsClient × Outcome :=
  (client.sendError request.id ("bad params: " ++ host.paramsMessage name request.params),
    .answered)

def runRead (host : Host) (moment : Moment) (request : ActionRequestFrame)
    (value : FsReadRequest) (gate : CapabilityGate) (client : WsClient) : WsClient :=
  client.reply moment request ((FsOps.readAnnotated host gate client.fs value
    (value.annotate.getD false)).map FsReadResult.toValue)

def runPatch (host : Host) (moment : Moment) (request : ActionRequestFrame)
    (value : FsPatchRequest) (gate : CapabilityGate) (client : WsClient) : WsClient :=
  client.mutate host moment request value.path fun client =>
    let ran := FsOps.patch host moment gate client.fs value
    let client := { client with fs := ran.2 }
    client.replyVerified moment request "patch read-back verification failed"
      (ran.1.map fun result => (result.verified, result.toValue))

def runWrite (host : Host) (moment : Moment) (request : ActionRequestFrame)
    (value : FsWriteRequest) (gate : CapabilityGate) (client : WsClient) : WsClient :=
  client.mutate host moment request value.path fun client =>
    let ran := FsOps.write moment gate client.fs value
    let client := { client with fs := ran.2 }
    client.replyVerified moment request "write read-back verification failed"
      (ran.1.map fun result => (result.verified, result.toValue))

def runDelete (host : Host) (moment : Moment) (request : ActionRequestFrame)
    (value : FsDeleteRequest) (gate : CapabilityGate) (client : WsClient) : WsClient :=
  client.mutate host moment request value.path fun client =>
    let ran := FsOps.delete gate client.fs value
    let client := { client with fs := ran.2 }
    client.reply moment request
      (ran.1.map fun _ => .object [("deleted", .bool true)])

/-- A structural edit runs under the gate of the connection. -/
def runAstEdit (host : Host) (moment : Moment) (request : ActionRequestFrame)
    (value : AstEditRequest) (client : WsClient) : WsClient :=
  client.mutate host moment request value.path fun client =>
    let ran := AstOps.edit host client.gate client.fs value
    let client := { client with fs := ran.2 }
    client.replyVerified moment request "ast_edit read-back verification failed"
      (ran.1.map fun result => (result.verified, result.toValue))

/-- A rename captures no pre-image and succeeds when it applied an edit. -/
def runRename (moment : Moment) (request : ActionRequestFrame) (value : LspRenameRequest)
    (client : WsClient) : WsClient :=
  let ran := LspOps.rename client.gate client.fs value (moment.workspaceEdit request.params)
  let client := { client with fs := ran.2 }
  match ran.1 with
  | .ok result => client.sendActionResult request.id (decide (0 < result.editsApplied))
      (some result.toValue) none moment.elapsed
  | .error error => client.sendError request.id error.text

def runVerify (moment : Moment) (request : ActionRequestFrame) (value : FsVerifyRequest)
    (client : WsClient) : WsClient :=
  let ran := FsOps.verify moment client.fs value
  let client := { client with fs := ran.2 }
  client.sendActionResult request.id (ran.1.present && ran.1.readable && ran.1.writable)
    (some ran.1.toValue) ran.1.error moment.elapsed

def runList (host : Host) (moment : Moment) (request : ActionRequestFrame)
    (value : FsListRequest) (client : WsClient) : WsClient :=
  client.reply moment request ((FsOps.list host client.fs value).map FsListResult.toValue)

def runWatch (moment : Moment) (request : ActionRequestFrame) (value : FsWatchRequest)
    (client : WsClient) : WsClient :=
  client.reply moment request (moment.watch value.path value.durationMs value.recursive)

def entryValue (entry : CheckpointEntry) : Value :=
  .object [("action_id", .string entry.actionId), ("capability", .string entry.capability),
    ("path", .string entry.path), ("ts", .ofNat entry.ts), ("existed", .bool entry.existed),
    ("size", .ofNat entry.size), ("hash", .string entry.hash), ("truncated", .bool entry.truncated)]

def runCheckpointList (moment : Moment) (request : ActionRequestFrame) (client : WsClient) :
    WsClient :=
  let entries := match client.checkpoints with
    | some store => (store.list.take 200).map entryValue
    | none => []
  client.reply moment request (.ok (.object [("entries", .array entries)]))

/-- An approved restore puts the pre-image back. -/
def runRestore (host : Host) (moment : Moment) (request : ActionRequestFrame)
    (store : CheckpointStore) (entry : CheckpointEntry) (client : WsClient) : WsClient :=
  let ran := store.restore host moment.storeFault client.fs moment.rollbackAt entry.ts
  let client := { client with checkpoints := some ran.2.1, fs := ran.2.2 }
  match ran.1 with
  | .ok rollback => client.sendActionResult request.id true (some (.object
      [("restored", .bool true), ("ts", .ofNat entry.ts), ("path", .string entry.path),
        ("rollback_ts", .ofNat rollback.ts)])) none moment.elapsed
  | .error reason => client.sendError request.id ("restore failed: " ++ reason)

/-- The time stamp a restore asks for. -/
def restoreTs (request : ActionRequestFrame) : Nat :=
  ((request.params.get "ts").bind Value.asU64).getD 0

/-- An explicit grant approves a restore, and otherwise the owner's answer decides. -/
def restoreDecision (client : WsClient) (decision : Option ConsentAnswer) :
    Option ConsentAnswer :=
  if client.gate.allows "desktop.fs.restore" then some ⟨true, false⟩ else decision

/-- A restore needs its own grant or an answer of the owner, and the server's flag counts for
nothing. -/
def restoreArm (client : WsClient) (host : Host) (moment : Moment) (request : ActionRequestFrame)
    (decision : Option ConsentAnswer) : WsClient × Outcome :=
  let ts := restoreTs request
  if ts = 0 then (client.sendError request.id "bad params: ts (ms) requerido", .answered)
  else match client.checkpoints with
    | none => (client.sendError request.id "checkpoint store unavailable", .answered)
    | some store => match store.list.find? (·.ts = ts) with
      | none => (client.sendError request.id
          ("checkpoint " ++ toString ts ++ " no existe (¿evicted?)"), .answered)
      | some entry =>
        match client.restoreDecision decision with
        | none => (client.raisePrompt request (promptFor request "desktop.fs.restore"
            ("Restaurar " ++ entry.path ++ " desde checkpoint") entry.path), .awaitingConsent)
        | some answer =>
            if answer.approved then (client.runRestore host moment request store entry, .answered)
            else (client.sendError request.id
              "capability_denied: desktop.fs.restore (denegado por el owner)", .answered)

/-- A delete answers every error of the path gate, the mark of a parked action included. -/
def deleteArm (client : WsClient) (host : Host) (moment : Moment) (request : ActionRequestFrame)
    (value : FsDeleteRequest) (decision : Option ConsentAnswer) : WsClient × Outcome :=
  match client.pathGate request "desktop.fs.delete" value.path decision with
  | (.ok gate, client) => (client.runDelete host moment request value gate, .answered)
  | (.error error, client) => (client.sendError request.id error.text, .answered)

/-- Another engine streams its chunks and answers once. -/
def runEngine (moment : Moment) (request : ActionRequestFrame) (client : WsClient) : WsClient :=
  let answer := moment.engine request.capability request.params client.fs
  let chunks := answer.chunks.zipIdx.map fun (chunk, seq) => SentFrame.actionStream
    ⟨protocolVersion, request.id, seq, chunk.1, chunk.2, false⟩
  let client := { client with fs := answer.machine, sent := client.sent ++ chunks }
  client.sendActionResult request.id answer.ok answer.output answer.error answer.durationMs

/-- The arm of a capability reads its parameters and runs. -/
def dispatch (client : WsClient) (host : Host) (moment : Moment) (request : ActionRequestFrame)
    (decision : Option ConsentAnswer) : WsClient × Outcome :=
  match Arm.ofCapability request.capability with
  | .fsRead => match FsReadRequest.ofParams request.params with
      | none => client.badParams host request "FsReadRequest"
      | some value => client.gated request "desktop.fs.read" value.path decision
          (runRead host moment request value)
  | .fsPatch => match FsPatchRequest.ofParams request.params with
      | none => client.badParams host request "FsPatchRequest"
      | some value => client.gated request "desktop.fs.write" value.path decision
          (runPatch host moment request value)
  | .fsWrite => match FsWriteRequest.ofParams request.params with
      | none => client.badParams host request "FsWriteRequest"
      | some value => client.gated request "desktop.fs.write" value.path decision
          (runWrite host moment request value)
  | .astEdit => match AstEditRequest.ofParams request.params with
      | none => client.badParams host request "AstEditRequest"
      | some value => (client.runAstEdit host moment request value, .answered)
  | .lspRename => match LspRenameRequest.ofParams request.params with
      | none => client.badParams host request "LspRenameRequest"
      | some value => (client.runRename moment request value, .answered)
  | .fsDelete => match FsDeleteRequest.ofParams request.params with
      | none => client.badParams host request "FsDeleteRequest"
      | some value => client.deleteArm host moment request value decision
  | .fsRestore => client.restoreArm host moment request decision
  | .checkpointList => client.gated request "desktop.fs.read" "" decision
      fun _ client => client.runCheckpointList moment request
  | .fsVerify => match FsVerifyRequest.ofParams request.params with
      | none => client.badParams host request "FsVerifyRequest"
      | some value => client.gated request "desktop.fs.verify" value.path decision
          fun _ client => client.runVerify moment request value
  | .fsList => match FsListRequest.ofParams request.params with
      | none => client.badParams host request "FsListRequest"
      | some value =>
          let target := Text.trim (value.path.getD "")
          if target = "" then (client.runList host moment request value, .answered)
          else client.gated request "desktop.fs.list" target decision
            fun _ client => client.runList host moment request value
  | .fsWatch => match FsWatchRequest.ofParams request.params with
      | none => client.badParams host request "FsWatchRequest"
      | some value => client.gated request "desktop.fs.watch" value.path decision
          fun _ client => client.runWatch moment request value
  | .engine => (client.runEngine moment request, .answered)
  | .notImplemented => (client.sendError request.id
      ("capability not implemented in daemon: " ++ request.capability), .answered)

/-- An action is refused before its arm for a missing scope, a dangerous command or a kill without
its grant. -/
def refusal (client : WsClient) (request : ActionRequestFrame) : Option String :=
  if requiredScope request ≠ "self" ∧ client.gate.allows (requiredScope request) = false then
    some ("capability not granted: " ++ request.capability)
  else if request.capability = "desktop.shell.execute" ∧
      containsDangerousShell (((request.params.get "command").bind Value.asStr).getD "") then
    some "hard_stop_blocked: dangerous command pattern"
  else if request.capability = "desktop.process.kill" ∧
      client.gate.allows "desktop.process.kill" = false then
    some "capability_denied: desktop.process.kill"
  else none

def park (client : WsClient) (moment : Moment) (request : ActionRequestFrame) : WsClient :=
  { client with parked := client.parked.insert request.id ⟨request, moment.now⟩ }

/-- An action runs in its arm, and the request of an action that waits for the owner is parked. -/
def handleAction (client : WsClient) (host : Host) (moment : Moment) (request : ActionRequestFrame)
    (decision : Option ConsentAnswer) : WsClient :=
  match client.refusal request with
  | some reason => client.sendError request.id reason
  | none => match client.dispatch host moment request decision with
      | (client, .answered) => client
      | (client, .awaitingConsent) => client.park moment request

end WsClient

end Daemon
