import SynthHiresBridge.Daemon.EvalSession
import SynthHiresBridge.Proof.LspProtocol
import SynthHiresBridge.Transition.Run

namespace Daemon

open Transition

namespace EvalEngine

/-- The engine holds no runtime and remembers nothing of one, so that a write starts a new one. -/
structure Recovered (inner : EngineInner) : Prop where
  runtime : inner.runtime = none
  sessions : inner.sessions = ∅
  pending : inner.pending = ∅
  restarts : ∀ process attempt command, attempt.spawn = .ok true →
    sendRequest inner process attempt command =
      (.ok (), { inner with runtime := (JsRuntime.spawned process true).write command })

namespace EvalWorld

/-- The runtime that an event works on is dead. -/
def deadChild (world : EvalWorld) : EvalEvent → Prop
  | .send attempt => ∃ runtime, world.inner.runtime.elim
      (attempt.spawn.map (JsRuntime.spawned world.nextProcess)) .ok = .ok runtime ∧
      runtime.alive = false
  | .read | .readError _ | .lapse | .deadline =>
      ∃ runtime, world.inner.runtime = some runtime ∧ runtime.alive = false
  | _ => False

/-- A call that comes back with an error of the engine over a dead runtime leaves nothing of it. -/
def Recovers (world : EvalWorld) (event : EvalEvent) : Prop :=
  ∀ context error, world.deadChild event →
    (world.step event).answers = world.answers ++ [⟨context, .error (.daemon error)⟩] →
    Recovered (world.step event).inner

/-- The request of a call is written to a dead runtime. -/
def WritesToDead (world : EvalWorld) (event : EvalEvent) : Prop :=
  ∃ attempt own code, event = .send attempt ∧ world.call = some ⟨own, code, .reaping []⟩ ∧
    attempt.id ∉ world.used ∧ world.deadChild (.send attempt)

theorem answers_idle {world after : EvalWorld} {answer : Answer} (same : after.answers = world.answers) :
    after.answers ≠ world.answers ++ [answer] := by
  rw [same]
  simp

theorem recovered_kill (world : EvalWorld) (text : String) : Recovered (world.kill text).inner := by
  refine ⟨rfl, rfl, rfl, ?_⟩
  intro process attempt command spawned
  rw [sendRequest, spawned]
  rfl

theorem route_answers (world : EvalWorld) (call : EvalCall) (requestId : String) (deadline : Nat)
    (output : PendingOut) (context : Option Context) (stream : Stream) (message : Json.Value) :
    (world.route call requestId deadline output context stream message).answers = world.answers := by
  rw [route]
  split
  · rfl
  · split
    · split
      · rfl
      · rfl
    · rfl

/-- A line brings a call back with a result, or with an error of its code. -/
theorem receive_answers (world : EvalWorld) (call : EvalCall) (requestId : String) (deadline : Nat)
    (output : PendingOut) (context : Option Context) (message : Json.Value) :
    (world.receive call requestId deadline output context message).answers = world.answers ∨
      ∃ outcome, (world.receive call requestId deadline output context message).answers =
        world.answers ++ [⟨world.serving call.session, outcome⟩] ∧
        ∀ error, outcome ≠ .error (.daemon error) := by
  rw [receive]
  split
  · exact .inl (route_answers _ _ _ _ _ _ _ _)
  · exact .inl (route_answers _ _ _ _ _ _ _ _)
  · split
    · refine .inr ⟨_, rfl, ?_⟩
      intro error same
      cases same
    · exact .inl rfl
  · split
    · refine .inr ⟨_, rfl, ?_⟩
      intro error same
      cases same
    · exact .inl rfl
  · exact .inl rfl

theorem recovers_of_idle {world : EvalWorld} {event : EvalEvent}
    (idle : (world.step event).answers = world.answers) : world.Recovers event :=
  fun _ _ _ failed => absurd failed (answers_idle idle)

/-- A read finds the end of the stream of a dead runtime, unless a line is left. -/
theorem recovers_read (world : EvalWorld) : world.Recovers .read := by
  cases calling : world.call with
  | none =>
      apply recovers_of_idle
      rw [step, calling]
  | some call =>
      rcases call with ⟨own, code, stage⟩
      cases stage with
      | reaping expired =>
          apply recovers_of_idle
          rw [step, calling]
      | reading requestId deadline output =>
          rintro context error ⟨runtime, held, gone⟩ failed
          rw [step, calling] at failed ⊢
          dsimp only at failed ⊢
          rw [read, held] at failed ⊢
          dsimp only at failed ⊢
          cases line : runtime.written[runtime.taken]? with
          | none =>
              rw [gone]
              exact recovered_kill _ _
          | some frame =>
              rw [line] at failed
              dsimp only at failed
              cases value : frame.value with
              | none =>
                  rw [value] at failed
                  exact absurd failed (answers_idle rfl)
              | some message =>
                  rw [value] at failed
                  rcases receive_answers _ _ _ _ _ _ _ with idle | ⟨outcome, back, other⟩
                  · exact absurd failed (answers_idle idle)
                  · have same := List.append_cancel_left (back.symm.trans failed)
                    cases same
                    exact absurd rfl (other error)

/-- The other ways to stop reading kill the runtime, whether it lives or not. -/
theorem recovers_stop (world : EvalWorld) {event : EvalEvent}
    (stops : (∃ detail, event = .readError detail) ∨ event = .lapse ∨ event = .deadline) :
    world.Recovers event := by
  have killed : world.step event = world ∨ ∃ text, world.step event = world.kill text := by
    rcases stops with ⟨detail, rfl⟩ | rfl | rfl
    · rw [step]
      split
      · exact .inr ⟨_, rfl⟩
      · exact .inl rfl
    · rw [step]
      split
      · split
        · exact .inr ⟨_, rfl⟩
        · exact .inl rfl
      · exact .inl rfl
    · rw [step]
      split
      · split
        · exact .inr ⟨_, rfl⟩
        · exact .inl rfl
      · exact .inl rfl
  rcases killed with same | ⟨text, same⟩
  · exact recovers_of_idle (congrArg EvalWorld.answers same)
  · intro context error dead failed
    rw [same]
    exact recovered_kill world text

/-- What the write of a request to a dead runtime leaves. -/
theorem send_dead {world : EvalWorld} (call : EvalCall) {attempt : Attempt}
    (dead : world.deadChild (.send attempt)) :
    ∃ runtime, (world.send call attempt).inner.runtime = some runtime ∧ runtime.alive = false ∧
      (world.send call attempt).answers =
        world.answers ++ [⟨none, .error (.daemon (.protocol ("eval runtime stdin: " ++ attempt.detail)))⟩] := by
  obtain ⟨runtime, target, gone⟩ := dead
  have refused : ∀ command, runtime.write command = none := by
    intro command
    rw [JsRuntime.write, gone]
    rfl
  have sent : sendRequest world.inner world.nextProcess attempt
      (.exec attempt.id call.session call.code) =
      (.error (.protocol ("eval runtime stdin: " ++ attempt.detail)),
        { world.inner with runtime := some runtime }) := by
    rw [sendRequest, target]
    dsimp only
    rw [refused]
  refine ⟨runtime, ?_, gone, ?_⟩
  · rw [send, sent]
    rfl
  · rw [send, sent]
    rfl

theorem recovers_send (world : EvalWorld) (attempt : Attempt) :
    world.Recovers (.send attempt) ↔ ¬world.WritesToDead (.send attempt) := by
  constructor
  · rintro recovers ⟨given, own, code, same, calling, fresh, dead⟩
    cases same
    obtain ⟨runtime, held, gone, failed⟩ := send_dead ⟨own, code, .reaping []⟩ dead
    have stepped : world.step (.send attempt) = world.send ⟨own, code, .reaping []⟩ attempt := by
      rw [step, calling]
      exact if_pos fresh
    have recovered := recovers none _ dead (by rw [stepped]; exact failed)
    rw [stepped] at recovered
    rw [recovered.runtime] at held
    cases held
  · intro safe context error dead failed
    cases calling : world.call with
    | none =>
        rw [step, calling] at failed
        exact absurd failed (answers_idle rfl)
    | some call =>
        rcases call with ⟨own, code, stage⟩
        cases stage with
        | reading requestId deadline output =>
            rw [step, calling] at failed
            exact absurd failed (answers_idle rfl)
        | reaping expired =>
            cases expired with
            | cons session rest =>
                rw [step, calling] at failed
                exact absurd failed (answers_idle rfl)
            | nil =>
                by_cases fresh : attempt.id ∉ world.used
                · exact absurd ⟨attempt, own, code, rfl, calling, fresh, dead⟩ safe
                · rw [step, calling] at failed
                  dsimp only at failed
                  rw [if_neg fresh] at failed
                  exact absurd failed (answers_idle rfl)

/-- An engine recovers from the death of its runtime exactly when the death is not noticed first by
the write of a request. -/
theorem recovers_iff (world : EvalWorld) (event : EvalEvent) :
    world.Recovers event ↔ ¬world.WritesToDead event := by
  have other : (∀ attempt, event ≠ .send attempt) → ¬world.WritesToDead event := by
    rintro apart ⟨attempt, own, code, rfl, -⟩
    exact apart attempt rfl
  cases event with
  | send attempt => exact recovers_send world attempt
  | read => exact iff_of_true (recovers_read world) (other nofun)
  | readError detail => exact iff_of_true (recovers_stop world (.inl ⟨detail, rfl⟩)) (other nofun)
  | lapse => exact iff_of_true (recovers_stop world (.inr (.inl rfl))) (other nofun)
  | deadline => exact iff_of_true (recovers_stop world (.inr (.inr rfl))) (other nofun)
  | passes | exec | reap | runtime =>
      exact iff_of_true (fun _ _ dead => dead.elim) (other nofun)

end EvalWorld

end EvalEngine

namespace LspEngine

/-- The world of a call on a server that lives. A reply that does not come in time is missing. -/
structure LiveWorld where
  gate : CapabilityGate
  processId : Nat
  spawn : Option SpawnFault
  writeError : String
  initializeReply : Option Json.Value
  requestReply : Option Json.Value
  published : Option (List Json.Value)

/-- A server dies before one of its dealings with a call: the request to initialize, its reply, the
confirmation, the file, the request, its reply. From then on writes fail and no reply comes. -/
def LiveWorld.dying (world : LiveWorld) (moment : Nat) : CallWorld where
  gate := world.gate
  processId := world.processId
  spawn := world.spawn
  writeError := world.writeError
  initializeExit := if moment ≤ 0 then .writeFailed else if moment ≤ 1 then .timedOut
    else world.initializeReply.elim .timedOut .answered
  initializedFault := decide (moment ≤ 2)
  didOpenFault := decide (moment ≤ 3)
  requestExit := if moment ≤ 4 then .writeFailed else if moment ≤ 5 then .timedOut
    else world.requestReply.elim .timedOut .answered
  published := world.published

def LiveWorld.welcomes (world : LiveWorld) : Bool :=
  world.initializeReply.any fun reply => (reply.get "error").isNone

/-- The last dealing of an operation with a server that lives. -/
def LiveWorld.last (world : LiveWorld) (opened : Bool) : Operation → Option Nat
  | .ask _ => some (if opened || world.welcomes then 5 else 1)
  | .diagnostics => if opened then none else some (if world.welcomes then 3 else 1)

/-- The last dealing of a call, if it comes to its server at all. -/
def lastDealing (lsp : LspState) (call : LspCall) (world : LiveWorld) : Option Nat :=
  match ensurePath world.gate call.operation.capability call.path with
  | .error _ => none
  | .ok _ => match lspLanguageFor (extensionOf call.path) with
    | none => none
    | some spec =>
        match acquire lsp.servers (spec.language, rootOf call.path call.workspace) spec
          (world.dying 6) with
        | .error _ => none
        | .ok state => match readToString lsp.machine call.path with
          | .error _ => none
          | .ok _ => world.last (decide (pathToUri call.path ∈ state.opened)) call.operation

/-- A call that deals with its server has passed its checks. -/
structure Deals (lsp : LspState) (call : LspCall) (world : LiveWorld) (spec : ServerSpec)
    (state : ServerState) (source : String) : Prop where
  allowed : ensurePath world.gate call.operation.capability call.path = .ok ()
  language : lspLanguageFor (extensionOf call.path) = some spec
  server : ∀ moment, acquire lsp.servers (spec.language, rootOf call.path call.workspace) spec
    (world.dying moment) = .ok state
  file : readToString lsp.machine call.path = .ok source

def keyOf (call : LspCall) : Option (String × String) :=
  (lspLanguageFor (extensionOf call.path)).map fun spec =>
    (spec.language, rootOf call.path call.workspace)

/-- An engine, and the servers of its pool that are dead. -/
structure Mortals where
  lsp : LspState
  dead : Finset (String × String)

inductive MortalEvent where
  | machine (machine : Posix.FileSystem)
  | die (key : String × String)
  | call (call : LspCall) (world : LiveWorld) (moment : Nat)

namespace Mortals

/-- A server that is dead already dies before the first dealing. -/
def momentOf (mortals : Mortals) (call : LspCall) (moment : Nat) : Nat :=
  if (keyOf call).any fun key => decide (key ∈ mortals.dead) then 0 else moment

def step (mortals : Mortals) : MortalEvent → Mortals
  | .machine machine => { mortals with lsp := { mortals.lsp with machine := machine } }
  | .die key =>
      if (mortals.lsp.servers.lookup key).isSome then
        { mortals with dead := insert key mortals.dead }
      else mortals
  | .call call world moment =>
      let after := (perform mortals.lsp call (world.dying (mortals.momentOf call moment))).2
      let died := (keyOf call).filter fun key =>
        decide (mortals.momentOf call moment ≤ 5) && (after.servers.lookup key).isSome
      ⟨after, died.elim mortals.dead fun key => insert key mortals.dead⟩

def start (machine : Posix.FileSystem) : Mortals := ⟨LspEngine.start machine, ∅⟩

/-- A call writes to its server, or waits for it, when it is dead. -/
def MeetsDeath (mortals : Mortals) (event : MortalEvent) : Prop :=
  ∃ call world moment last, event = .call call world moment ∧
    lastDealing mortals.lsp call world = some last ∧ mortals.momentOf call moment ≤ last

/-- After a call that failed because its server was dead, the server is out of the pool. -/
def Recovers (mortals : Mortals) (event : MortalEvent) : Prop :=
  mortals.MeetsDeath event → ∀ call world moment error, event = .call call world moment →
    (perform mortals.lsp call (world.dying (mortals.momentOf call moment))).1 = .error error →
    ∀ key, keyOf call = some key → (mortals.step event).lsp.servers.lookup key = none

end Mortals

theorem requestResult_dying (method : String) (fault : DaemonError) {world : LiveWorld} {moment : Nat}
    (dead : moment ≤ 5) :
    ∃ error, requestResult method fault (world.dying moment).requestExit = .error error := by
  by_cases early : moment ≤ 4
  · exact ⟨fault, by rw [LiveWorld.dying, if_pos early, requestResult]⟩
  · rw [LiveWorld.dying, if_neg early, if_pos dead]
    exact ⟨_, rfl⟩

/-- An opening goes wrong when the server dies before it is done, or does not welcome the engine. -/
theorem rough_dying {world : LiveWorld} {moment : Nat}
    (rough : moment ≤ 3 ∨ world.welcomes = false) :
    ¬Handshake (world.dying moment) := by
  rintro ⟨⟨reply, answered, good⟩, -, didOpen⟩
  rcases rough with early | unwelcome
  · have fault : (world.dying moment).didOpenFault = true := decide_eq_true early
    rw [fault] at didOpen
    cases didOpen
  · rw [LiveWorld.dying] at answered
    dsimp only at answered
    split at answered
    · cases answered
    · split at answered
      · cases answered
      · cases came : world.initializeReply with
        | none =>
            rw [came] at answered
            cases answered
        | some given =>
            rw [LiveWorld.welcomes, came] at unwelcome
            rw [came] at answered
            cases answered
            simp [good] at unwelcome

theorem deals_of_lastDealing {lsp : LspState} {call : LspCall} {world : LiveWorld} {last : Nat}
    (deals : lastDealing lsp call world = some last) :
    ∃ spec state source, Deals lsp call world spec state source ∧
      world.last (decide (pathToUri call.path ∈ state.opened)) call.operation = some last := by
  rw [lastDealing] at deals
  cases allowed : ensurePath world.gate call.operation.capability call.path with
  | error error =>
      rw [allowed] at deals
      cases deals
  | ok _ =>
      rw [allowed] at deals
      dsimp only at deals
      cases language : lspLanguageFor (extensionOf call.path) with
      | none =>
          rw [language] at deals
          cases deals
      | some spec =>
          rw [language] at deals
          dsimp only at deals
          cases server : acquire lsp.servers (spec.language, rootOf call.path call.workspace) spec
              (world.dying 6) with
          | error error =>
              rw [server] at deals
              cases deals
          | ok state =>
              rw [server] at deals
              dsimp only at deals
              cases file : readToString lsp.machine call.path with
              | error error =>
                  rw [file] at deals
                  cases deals
              | ok source =>
                  rw [file] at deals
                  exact ⟨spec, state, source, ⟨allowed, language, fun _ => server, file⟩, deals⟩

/-- A request to a server that dies before its reply fails, and the server stays in the pool. -/
theorem perform_asks {lsp : LspState} {call : LspCall} {world : LiveWorld} {moment : Nat}
    {spec : ServerSpec} {state : ServerState} {source : String}
    (deals : Deals lsp call world spec state source) {inquiry : Inquiry}
    (asks : call.operation = .ask inquiry) (dead : moment ≤ 5) {servers : Servers} {prepared : Prepared}
    (done : prepare lsp.servers lsp.machine call.path call.workspace (world.dying moment) =
      (.ok prepared, servers))
    (key : prepared.key = (spec.language, rootOf call.path call.workspace)) :
    ∃ error, (perform lsp call (world.dying moment)).1 = .error error ∧
      ((perform lsp call (world.dying moment)).2.servers.lookup
        (spec.language, rootOf call.path call.workspace)).isSome := by
  obtain ⟨error, failed⟩ := requestResult_dying inquiry.method (world.dying moment).fault dead
  have allowed : ensurePath (world.dying moment).gate call.operation.capability call.path = .ok () :=
    deals.allowed
  refine ⟨error, ?_⟩
  rw [perform, allowed]
  dsimp only
  rw [done]
  dsimp only
  rw [asks]
  dsimp only
  rw [failed, key]
  exact ⟨rfl, by rw [AList.lookup_insert]; rfl⟩

/-- An opening on a server that dies too early fails, and the server stays in the pool. -/
theorem perform_opens {lsp : LspState} {call : LspCall} {world : LiveWorld} {moment : Nat}
    {spec : ServerSpec} {state : ServerState} {source : String}
    (deals : Deals lsp call world spec state source) (outside : pathToUri call.path ∉ state.opened)
    (rough : ¬Handshake (world.dying moment)) :
    ∃ error, (perform lsp call (world.dying moment)).1 = .error error ∧
      ((perform lsp call (world.dying moment)).2.servers.lookup
        (spec.language, rootOf call.path call.workspace)).isSome := by
  obtain ⟨error, tried, opening, -⟩ := openFile_rough rough state
    (rootOf call.path call.workspace) (pathToUri call.path) source
  have failed := prepare_failed deals.language (deals.server moment) deals.file outside opening
  have allowed : ensurePath (world.dying moment).gate call.operation.capability call.path = .ok () :=
    deals.allowed
  refine ⟨error, ?_⟩
  rw [perform, allowed]
  dsimp only
  rw [failed]
  exact ⟨rfl, by rw [AList.lookup_insert]; rfl⟩

/-- A call that meets the death of its server fails, and the server stays in the pool. -/
theorem perform_dying {lsp : LspState} {call : LspCall} {world : LiveWorld} {moment last : Nat}
    (meets : lastDealing lsp call world = some last) (dead : moment ≤ last) :
    ∃ key error, keyOf call = some key ∧
      (perform lsp call (world.dying moment)).1 = .error error ∧
      ((perform lsp call (world.dying moment)).2.servers.lookup key).isSome := by
  obtain ⟨spec, state, source, deals, ends⟩ := deals_of_lastDealing meets
  have key : keyOf call = some (spec.language, rootOf call.path call.workspace) := by
    rw [keyOf, deals.language]
    rfl
  suffices fails : ∃ error, (perform lsp call (world.dying moment)).1 = .error error ∧
      ((perform lsp call (world.dying moment)).2.servers.lookup
        (spec.language, rootOf call.path call.workspace)).isSome by
    obtain ⟨error, fails, pooled⟩ := fails
    exact ⟨_, error, key, fails, pooled⟩
  by_cases inside : pathToUri call.path ∈ state.opened
  · rw [decide_eq_true inside] at ends
    cases operation : call.operation with
    | diagnostics =>
        rw [operation] at ends
        cases ends
    | ask inquiry =>
        rw [operation] at ends
        cases ends
        exact perform_asks deals operation dead
          (prepare_known deals.language (deals.server moment) deals.file inside) rfl
  · by_cases smooth : Handshake (world.dying moment)
    · obtain ⟨reply, ready, -, opening, -⟩ := openFile_smooth smooth state
        (rootOf call.path call.workspace) (pathToUri call.path) source
      have done := prepare_opened deals.language (deals.server moment) deals.file inside opening
      have late : ¬moment ≤ 3 := fun early => rough_dying (.inl early) smooth
      have welcome : world.welcomes = true :=
        Bool.of_not_eq_false fun unwelcome => rough_dying (.inr unwelcome) smooth
      rw [decide_eq_false inside] at ends
      cases operation : call.operation with
      | diagnostics =>
          rw [operation, LiveWorld.last, welcome] at ends
          cases ends
          exact absurd dead late
      | ask inquiry =>
          rw [operation, LiveWorld.last, welcome] at ends
          cases ends
          exact perform_asks deals operation dead done rfl
    · exact perform_opens deals inside smooth

namespace Mortals

/-- A pool recovers from the death of a server exactly when no call meets it. -/
theorem recovers_iff (mortals : Mortals) (event : MortalEvent) :
    mortals.Recovers event ↔ ¬mortals.MeetsDeath event := by
  constructor
  · rintro recovers meets
    obtain ⟨call, world, moment, last, rfl, deals, dead⟩ := meets
    obtain ⟨key, error, named, failed, pooled⟩ := perform_dying deals dead
    have gone := recovers ⟨call, world, moment, last, rfl, deals, dead⟩ call world moment error rfl
      failed key named
    rw [step] at gone
    rw [gone] at pooled
    cases pooled
  · intro safe meets
    exact absurd meets safe

end Mortals

end LspEngine

open EvalEngine LspEngine

/-- An evaluation engine recovers from every death of its runtime exactly when no request is written
to a dead one, and a pool of servers recovers exactly when no call meets a dead server. -/
theorem children_recover (machine : Posix.FileSystem) (requests : List EvalEvent)
    (calls : List MortalEvent) :
    (Throughout (fun before event => (run EvalWorld.step .start before).Recovers event) requests ↔
      Throughout (fun before event => ¬(run EvalWorld.step .start before).WritesToDead event)
        requests) ∧
    (Throughout (fun before event => (run Mortals.step (.start machine) before).Recovers event)
        calls ↔
      Throughout (fun before event => ¬(run Mortals.step (.start machine) before).MeetsDeath event)
        calls) := by
  constructor
  · simp only [EvalWorld.recovers_iff]
  · simp only [Mortals.recovers_iff]

/-- A runtime dies after a call, and the request of the next call is written to it. -/
def idleDeath : List EvalEvent :=
  [.exec (.ofScopes ⟨["desktop.shell.execute"], []⟩) ⟨"1", some "s"⟩ "f", .send ⟨"r1", .ok true, ""⟩,
    .runtime .command, .runtime (.settle ⟨"r1", "s", true⟩ (.value (some (.ofNat 1)))), .read,
    .runtime .die, .exec (.ofScopes ⟨["desktop.shell.execute"], []⟩) ⟨"2", some "s"⟩ "f"]

/-- A server dies after a call, and the next call finds it in the pool. -/
def firstCall : MortalEvent :=
  .call ⟨"/a.rs", none, .diagnostics⟩ ⟨.ofScopes ⟨["desktop.fs.read"], ["/"]⟩, 7, none, "broken pipe",
    some (.object []), none, none⟩ 6

theorem children_lost :
    (¬(run EvalWorld.step .start idleDeath).Recovers (.send ⟨"r2", .ok true, "broken pipe"⟩) ∧
      ¬(run EvalWorld.step .start (idleDeath ++ [.send ⟨"r2", .ok true, "broken pipe"⟩,
        .exec (.ofScopes ⟨["desktop.shell.execute"], []⟩) ⟨"3", none⟩ "f"])).Recovers
          (.send ⟨"r3", .ok true, "broken pipe"⟩)) ∧
      ¬(run Mortals.step (.start twoSources) [firstCall, .die ("rust", "/")]).Recovers
        (.call ⟨"/a.rs", none, .ask (.hover 1 1)⟩ ⟨.ofScopes ⟨["desktop.fs.read"], ["/"]⟩, 7, none,
          "broken pipe", none, some (.object []), none⟩ 6) := by
  refine ⟨⟨?_, ?_⟩, ?_⟩
  · rw [EvalWorld.recovers_iff, not_not]
    refine ⟨_, "s", "2", rfl, rfl, ?_, _, rfl, rfl⟩
    decide
  · rw [EvalWorld.recovers_iff, not_not]
    refine ⟨_, "f", "3", rfl, rfl, ?_, _, rfl, rfl⟩
    decide
  · rw [Mortals.recovers_iff, not_not]
    refine ⟨_, _, _, 5, rfl, ?_, ?_⟩
    · decide +kernel
    · decide +kernel

end Daemon
