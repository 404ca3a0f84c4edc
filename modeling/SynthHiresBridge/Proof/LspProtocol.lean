import SynthHiresBridge.Daemon.LspSession

namespace Daemon

open Json Posix Transition

namespace LspEngine

def LspMessage.uri (message : LspMessage) : Option String :=
  (message.params.pointer ["textDocument", "uri"]).bind Value.asStr

/-- A file was opened by a notification that reached the server. -/
def DidOpen (traffic : List Traffic) (uri : String) : Prop :=
  ∃ message, .wrote message ∈ traffic ∧ message.method = "textDocument/didOpen" ∧
    message.uri = some uri

/-- A message is in its place: nothing comes before the request to initialize, the confirmation
follows a good reply to it, a file is opened after the confirmation, and a request about a file
comes after the file was opened. -/
structure InPlace (front : List Traffic) (message : LspMessage) : Prop where
  starts : message.method = "initialize" ↔ ∀ earlier, .wrote earlier ∉ front
  confirms : message.method = "initialized" → ∃ id params reply,
    .wrote ⟨some id, "initialize", params⟩ ∈ front ∧ .answered id reply ∈ front ∧
      reply.get "error" = none
  opens : message.method = "textDocument/didOpen" → ∃ earlier, .wrote earlier ∈ front ∧
    earlier.method = "initialized"
  asks : message.id.isSome → message.method ≠ "initialize" → ∃ uri, message.uri = some uri ∧
    DidOpen front uri

/-- Every message of the traffic is in its place. -/
def Ordered (traffic : List Traffic) : Prop :=
  Throughout (fun front item => ∀ message, item = .wrote message → InPlace front message) traffic

theorem ordered_concat {traffic : List Traffic} {item : Traffic} :
    Ordered (traffic ++ [item]) ↔
      Ordered traffic ∧ ∀ message, item = .wrote message → InPlace traffic message :=
  Throughout.concat_iff

/-- The steps of an opening all succeed. -/
def Handshake (world : CallWorld) : Prop :=
  (∃ reply, world.initializeExit = .answered reply ∧ reply.get "error" = none) ∧
    world.initializedFault = false ∧ world.didOpenFault = false

/-- The next call on a file completes what is missing, when nothing fails. -/
def Completes (servers : Servers) (path : String) (workspace : Option String) : Prop :=
  ∀ machine world spec source, world.spawn = none → Handshake world →
    lspLanguageFor (extensionOf path) = some spec → readToString machine path = .ok source →
    ∃ prepared after, prepare servers machine path workspace world = (.ok prepared, after) ∧
      DidOpen prepared.state.traffic prepared.uri

/-- The messages of every server are in their places after an event, and a preparation that fails
can be completed. -/
structure Obeys (lsp : LspState) (event : LspEvent) : Prop where
  ordered : ∀ key state, (step lsp event).servers.lookup key = some state → Ordered state.traffic
  retried : ∀ call world error servers, event = .call call world →
    ensurePath world.gate call.operation.capability call.path = .ok () →
    prepare lsp.servers lsp.machine call.path call.workspace world = (.error error, servers) →
    Completes servers call.path call.workspace

/-- A call opens its file on a server that does not have it open. -/
structure Opens (lsp : LspState) (call : LspCall) (world : CallWorld) (state : ServerState) : Prop
    where
  allowed : ensurePath world.gate call.operation.capability call.path = .ok ()
  server : ∃ spec, lspLanguageFor (extensionOf call.path) = some spec ∧
    acquire lsp.servers (spec.language, rootOf call.path call.workspace) spec world = .ok state
  readable : ∃ source, readToString lsp.machine call.path = .ok source
  fresh : pathToUri call.path ∉ state.opened

/-- A call that opens a file is the first one on its server, and none of its steps fails. -/
def FirstAndSmooth (lsp : LspState) (event : LspEvent) : Prop :=
  ∀ call world state, event = .call call world → Opens lsp call world state →
    state.opened = [] ∧ Handshake world

/-- The files in the set of a server are the ones that were opened, and a server without files was
never written to. -/
structure Consistent (state : ServerState) : Prop where
  ordered : Ordered state.traffic
  opened : ∀ uri, uri ∈ state.opened ↔ DidOpen state.traffic uri
  silent : state.opened = [] → state.traffic = []

theorem didOpen_append {first second : List Traffic} {uri : String} :
    DidOpen (first ++ second) uri ↔ DidOpen first uri ∨ DidOpen second uri := by
  simp only [DidOpen, List.mem_append, or_and_right, exists_or]

theorem uri_didOpenParams (uri language source : String) :
    (LspMessage.mk none "textDocument/didOpen" (didOpenParams uri language source)).uri =
      some uri := rfl

theorem uri_params (id : Option Nat) (method uri : String) (inquiry : Inquiry) :
    (LspMessage.mk id method (inquiry.params uri)).uri = some uri := by
  cases inquiry <;> rfl

/-- What a request adds to the traffic. -/
theorem traffic_request (state : ServerState) (method : String) (params : Value)
    (exit : Exit Value) : ∃ extra, (state.request method params exit).traffic =
      state.traffic ++ extra ∧ (extra = [] ∨ extra = [.wrote ⟨some state.nextId, method, params⟩] ∨
        ∃ reply, exit = .answered reply ∧ extra = [.wrote ⟨some state.nextId, method, params⟩,
          .answered state.nextId reply]) := by
  cases exit with
  | writeFailed => exact ⟨[], rfl, .inl rfl⟩
  | answered reply => exact ⟨_, rfl, .inr (.inr ⟨reply, rfl, rfl⟩)⟩
  | dropped => exact ⟨_, rfl, .inr (.inl rfl)⟩
  | timedOut => exact ⟨_, rfl, .inr (.inl rfl)⟩

/-- A request leaves the files that are open as they are. -/
theorem didOpen_request {state : ServerState} {method : String} {params : Value}
    {exit : Exit Value} (other : method ≠ "textDocument/didOpen") (uri : String) :
    DidOpen (state.request method params exit).traffic uri ↔ DidOpen state.traffic uri := by
  obtain ⟨extra, same, shape⟩ := traffic_request state method params exit
  rw [same, didOpen_append, or_iff_left]
  rintro ⟨message, inside, opens, -⟩
  rcases shape with rfl | rfl | ⟨reply, -, rfl⟩
  · cases inside
  · simp only [List.mem_singleton, Traffic.wrote.injEq] at inside
    rw [inside] at opens
    exact other opens
  · simp only [List.mem_cons, Traffic.wrote.injEq, List.not_mem_nil, or_false] at inside
    rcases inside with rfl | impossible
    · exact other opens
    · cases impossible

theorem Inquiry.method_ne (inquiry : Inquiry) : inquiry.method ≠ "textDocument/didOpen" ∧
    inquiry.method ≠ "initialize" ∧ inquiry.method ≠ "initialized" := by
  cases inquiry with
  | hover line character => exact ⟨by simp [method], by simp [method], by simp [method]⟩
  | definition line character => exact ⟨by simp [method], by simp [method], by simp [method]⟩
  | rename line character newName =>
      exact ⟨by simp [method], by simp [method], by simp [method]⟩

/-- An inquiry about an open file is in its place. -/
theorem Consistent.request {state : ServerState} (consistent : Consistent state) {uri : String}
    (opened : uri ∈ state.opened) (inquiry : Inquiry) (exit : Exit Value) :
    Consistent (state.request inquiry.method (inquiry.params uri) exit) := by
  obtain ⟨notOpen, notInitialize, notInitialized⟩ := inquiry.method_ne
  have shown := (consistent.opened uri).mp opened
  obtain ⟨opening, written, -⟩ := shown
  have inPlace : InPlace state.traffic
      ⟨some state.nextId, inquiry.method, inquiry.params uri⟩ := by
    constructor
    · exact iff_of_false notInitialize fun none => none opening written
    · exact fun same => absurd same notInitialized
    · exact fun same => absurd same notOpen
    · exact fun _ _ => ⟨uri, uri_params _ _ uri inquiry, (consistent.opened uri).mp opened⟩
  have asked : Ordered (state.traffic ++
      [.wrote ⟨some state.nextId, inquiry.method, inquiry.params uri⟩]) := by
    refine ordered_concat.mpr ⟨consistent.ordered, ?_⟩
    intro message same
    rw [← Traffic.wrote.inj same]
    exact inPlace
  constructor
  · obtain ⟨extra, same, shape⟩ :=
      traffic_request state inquiry.method (inquiry.params uri) exit
    rw [same]
    rcases shape with rfl | rfl | ⟨reply, -, rfl⟩
    · rw [List.append_nil]
      exact consistent.ordered
    · exact asked
    · rw [← List.singleton_append, ← List.append_assoc]
      exact ordered_concat.mpr ⟨asked, nofun⟩
  · intro other
    rw [didOpen_request notOpen]
    exact consistent.opened other
  · intro empty
    change state.opened = [] at empty
    rw [empty] at opened
    cases opened

/-- What the four steps of an opening write. -/
def openingTraffic (state : ServerState) (root uri source : String) (world : CallWorld)
    (reply : Value) : List Traffic :=
  [.wrote ⟨some state.nextId, "initialize", .object [("processId", .ofNat world.processId),
      ("rootUri", .string (pathToUri root)), ("capabilities", .object [])]⟩,
    .answered state.nextId reply, .wrote ⟨none, "initialized", .object []⟩,
    .wrote ⟨none, "textDocument/didOpen", didOpenParams uri state.language source⟩]

theorem initializeResult_ok {fault : DaemonError} {exit : Exit Value}
    (good : initializeResult fault exit = .ok ()) :
    ∃ reply, exit = .answered reply ∧ reply.get "error" = none := by
  cases exit with
  | writeFailed => cases good
  | dropped => cases good
  | timedOut => cases good
  | answered reply =>
      cases found : reply.get "error" with
      | none => exact ⟨reply, rfl, found⟩
      | some error =>
          rw [initializeResult, found] at good
          cases good

theorem openFile_smooth {world : CallWorld} (smooth : Handshake world) (state : ServerState)
    (root uri source : String) : ∃ reply ready,
      reply.get "error" = none ∧ state.openFile root uri source world = (.ok (), ready) ∧
      ready.opened = uri :: state.opened ∧
      ready.traffic = state.traffic ++ openingTraffic state root uri source world reply := by
  obtain ⟨⟨reply, answered, good⟩, initialized, didOpen⟩ := smooth
  have handshake : ∀ marked : ServerState, marked.initializeServer root world =
      (.ok (), (marked.request "initialize" (.object [("processId", .ofNat world.processId),
        ("rootUri", .string (pathToUri root)), ("capabilities", .object [])])
        (.answered reply)).notify "initialized" (.object [])) := by
    intro marked
    rw [ServerState.initializeServer, answered, initialized, initializeResult, good]
    rfl
  refine ⟨reply, { state with
    opened := uri :: state.opened
    nextId := state.nextId + 1
    traffic := state.traffic ++ openingTraffic state root uri source world reply }, good, ?_, rfl,
    rfl⟩
  rw [ServerState.openFile, handshake, didOpen]
  simp [ServerState.request, ServerState.notify, openingTraffic]

/-- An opening that fails leaves its file in the set without having opened it. -/
theorem openFile_rough {world : CallWorld} (rough : ¬Handshake world) (state : ServerState)
    (root uri source : String) : ∃ error tried,
      state.openFile root uri source world = (.error error, tried) ∧
      tried.opened = uri :: state.opened ∧
      (DidOpen tried.traffic uri → DidOpen state.traffic uri) := by
  have unasked : ∀ params exit, DidOpen
      (({ state with opened := uri :: state.opened }).request "initialize" params exit).traffic uri ↔
        DidOpen state.traffic uri := by
    intro params exit
    exact didOpen_request (by simp) uri
  rw [ServerState.openFile, ServerState.initializeServer]
  cases asked : initializeResult world.fault world.initializeExit with
  | error error => exact ⟨error, _, rfl, rfl, (unasked _ _).mp⟩
  | ok _ =>
      cases initialized : world.initializedFault with
      | true => exact ⟨world.fault, _, rfl, rfl, (unasked _ _).mp⟩
      | false =>
          cases didOpen : world.didOpenFault with
          | true =>
              refine ⟨world.fault, _, rfl, rfl, fun shown => ?_⟩
              rcases didOpen_append.mp shown with old | ⟨message, inside, opens, -⟩
              · exact (unasked _ _).mp old
              · rw [List.mem_singleton, Traffic.wrote.injEq] at inside
                rw [inside] at opens
                simp at opens
          | false =>
              have smooth := initializeResult_ok asked
              exact absurd ⟨smooth, initialized, didOpen⟩ rough

/-- The first opening of a server puts its messages in their places. -/
theorem Consistent.opening {state ready : ServerState} (consistent : Consistent state)
    (first : state.opened = []) {root uri source : String} {world : CallWorld} {reply : Value}
    (good : reply.get "error" = none) (files : ready.opened = uri :: state.opened)
    (traffic : ready.traffic = state.traffic ++ openingTraffic state root uri source world reply) :
    Consistent ready := by
  rw [consistent.silent first, List.nil_append] at traffic
  rw [first] at files
  constructor
  · rw [traffic]
    apply Throughout.cons
    · rintro message same
      obtain rfl := Traffic.wrote.inj same
      constructor <;> simp
    apply Throughout.cons
    · exact nofun
    apply Throughout.cons
    · rintro message same
      obtain rfl := Traffic.wrote.inj same
      constructor
      · simp
      · intro _
        exact ⟨_, _, reply, List.mem_cons_self, by simp, good⟩
      · simp
      · simp
    apply Throughout.cons
    · rintro message same
      obtain rfl := Traffic.wrote.inj same
      constructor
      · exact iff_of_false (by simp) fun none => none _ List.mem_cons_self
      · simp
      · intro _
        exact ⟨⟨none, "initialized", .object []⟩, by simp, rfl⟩
      · simp
    exact Throughout.nil _
  · intro other
    rw [files, traffic, List.mem_singleton]
    constructor
    · rintro rfl
      exact ⟨⟨none, "textDocument/didOpen", didOpenParams other state.language source⟩,
        by simp [openingTraffic], rfl, uri_didOpenParams _ _ _⟩
    · rintro ⟨message, inside, opens, named⟩
      simp only [openingTraffic, List.mem_cons, Traffic.wrote.injEq, reduceCtorEq, false_or,
        List.not_mem_nil, or_false] at inside
      rcases inside with rfl | rfl | rfl
      · simp at opens
      · simp at opens
      · exact (Option.some.inj ((uri_didOpenParams uri state.language source).symm.trans named)).symm
  · intro empty
    rw [files] at empty
    cases empty

/-- The ways a preparation goes. -/
inductive Preparation (servers : Servers) (machine : FileSystem) (path : String)
    (workspace : Option String) (world : CallWorld) :
    Except DaemonError Prepared → Servers → Prop where
  | unserved (error : DaemonError) :
      (∀ spec, lspLanguageFor (extensionOf path) = some spec → ∃ error,
        acquire servers (spec.language, rootOf path workspace) spec world = .error error) →
      Preparation servers machine path workspace world (.error error) servers
  | unread (spec : ServerSpec) (state : ServerState) (error : DaemonError) :
      lspLanguageFor (extensionOf path) = some spec →
      acquire servers (spec.language, rootOf path workspace) spec world = .ok state →
      readToString machine path = .error error →
      Preparation servers machine path workspace world (.error error)
        (servers.insert (spec.language, rootOf path workspace) state)
  | known (spec : ServerSpec) (state : ServerState) (source : String) :
      lspLanguageFor (extensionOf path) = some spec →
      acquire servers (spec.language, rootOf path workspace) spec world = .ok state →
      readToString machine path = .ok source → pathToUri path ∈ state.opened →
      Preparation servers machine path workspace world
        (.ok ⟨(spec.language, rootOf path workspace), state, pathToUri path, source⟩)
        (servers.insert (spec.language, rootOf path workspace) state)
  | failed (spec : ServerSpec) (state : ServerState) (source : String) (error : DaemonError)
      (tried : ServerState) :
      lspLanguageFor (extensionOf path) = some spec →
      acquire servers (spec.language, rootOf path workspace) spec world = .ok state →
      readToString machine path = .ok source → pathToUri path ∉ state.opened →
      state.openFile (rootOf path workspace) (pathToUri path) source world = (.error error, tried) →
      Preparation servers machine path workspace world (.error error)
        (servers.insert (spec.language, rootOf path workspace) tried)
  | opened (spec : ServerSpec) (state : ServerState) (source : String) (ready : ServerState) :
      lspLanguageFor (extensionOf path) = some spec →
      acquire servers (spec.language, rootOf path workspace) spec world = .ok state →
      readToString machine path = .ok source → pathToUri path ∉ state.opened →
      state.openFile (rootOf path workspace) (pathToUri path) source world = (.ok (), ready) →
      Preparation servers machine path workspace world
        (.ok ⟨(spec.language, rootOf path workspace), ready, pathToUri path, source⟩)
        (servers.insert (spec.language, rootOf path workspace) ready)

theorem prepare_spec (servers : Servers) (machine : FileSystem) (path : String)
    (workspace : Option String) (world : CallWorld) :
    Preparation servers machine path workspace world
      (prepare servers machine path workspace world).1
      (prepare servers machine path workspace world).2 := by
  rw [prepare]
  cases language : lspLanguageFor (extensionOf path) with
  | none => exact .unserved _ fun spec known => absurd (language.symm.trans known) nofun
  | some spec =>
      dsimp only
      cases server : acquire servers (spec.language, rootOf path workspace) spec world with
      | error error =>
          refine .unserved _ fun other known => ⟨error, ?_⟩
          obtain rfl := Option.some.inj (language.symm.trans known)
          exact server
      | ok state =>
          cases file : readToString machine path with
          | error error => exact .unread spec state error language server file
          | ok source =>
              dsimp only
              split
              · rename_i inside
                exact .known spec state source language server file inside
              · rename_i outside
                cases opening : state.openFile (rootOf path workspace) (pathToUri path) source
                    world with
                | mk result tried =>
                    cases result with
                    | error error =>
                        exact .failed spec state source error tried language server file outside
                          opening
                    | ok done =>
                        exact .opened spec state source tried language server file outside opening

/-- Every server of a pool is consistent. -/
def AllConsistent (servers : Servers) : Prop :=
  ∀ key state, servers.lookup key = some state → Consistent state

theorem AllConsistent.insert {servers : Servers} (all : AllConsistent servers)
    (key : String × String) {state : ServerState} (consistent : Consistent state) :
    AllConsistent (servers.insert key state) := by
  intro other held found
  by_cases same : other = key
  · subst same
    rw [AList.lookup_insert] at found
    exact Option.some.inj found ▸ consistent
  · rw [AList.lookup_insert_ne same] at found
    exact all other held found

theorem AllConsistent.acquire {servers : Servers} (all : AllConsistent servers)
    {key : String × String} {spec : ServerSpec} {world : CallWorld} {state : ServerState}
    (server : acquire servers key spec world = .ok state) : Consistent state := by
  rw [LspEngine.acquire] at server
  cases found : servers.lookup key with
  | some existing =>
      rw [found] at server
      exact Except.ok.inj server ▸ all key existing found
  | none =>
      rw [found, spawnServer] at server
      cases spawned : world.spawn with
      | some fault => cases fault <;> (rw [spawned] at server; cases server)
      | none =>
          rw [spawned] at server
          obtain rfl := Except.ok.inj server
          constructor
          · exact Throughout.nil _
          · intro uri
            simp [DidOpen]
          · exact fun _ => rfl

/-- A preparation keeps the servers consistent, when an opening is the first one and succeeds. -/
theorem Preparation.consistent {servers after : Servers} {machine : FileSystem} {path : String}
    {workspace : Option String} {world : CallWorld} {result : Except DaemonError Prepared}
    (preparation : Preparation servers machine path workspace world result after)
    (all : AllConsistent servers)
    (smooth : ∀ spec state source, lspLanguageFor (extensionOf path) = some spec →
      acquire servers (spec.language, rootOf path workspace) spec world = .ok state →
      readToString machine path = .ok source → pathToUri path ∉ state.opened →
      state.opened = [] ∧ Handshake world) :
    AllConsistent after ∧ ∀ prepared, result = .ok prepared →
      Consistent prepared.state ∧ prepared.uri ∈ prepared.state.opened := by
  cases preparation with
  | unserved error _ => exact ⟨all, nofun⟩
  | unread spec state error language server file =>
      exact ⟨all.insert _ (all.acquire server), nofun⟩
  | known spec state source language server file inside =>
      refine ⟨all.insert _ (all.acquire server), ?_⟩
      rintro prepared same
      obtain rfl := Except.ok.inj same
      exact ⟨all.acquire server, inside⟩
  | failed spec state source error tried language server file outside opening =>
      obtain ⟨first, handshake⟩ := smooth spec state source language server file outside
      obtain ⟨reply, ready, good, done, -⟩ := openFile_smooth handshake state
        (rootOf path workspace) (pathToUri path) source
      rw [opening] at done
      cases done
  | opened spec state source ready language server file outside opening =>
      obtain ⟨first, handshake⟩ := smooth spec state source language server file outside
      obtain ⟨reply, other, good, done, files, traffic⟩ := openFile_smooth handshake state
        (rootOf path workspace) (pathToUri path) source
      rw [opening] at done
      obtain ⟨-, rfl⟩ := Prod.mk.inj done
      have consistent := (all.acquire server).opening first good files traffic
      refine ⟨all.insert _ consistent, ?_⟩
      rintro prepared same
      obtain rfl := Except.ok.inj same
      refine ⟨consistent, ?_⟩
      show pathToUri path ∈ ready.opened
      rw [files]
      exact List.mem_cons_self

/-- A call keeps the servers consistent, when an opening is the first one and succeeds. -/
theorem AllConsistent.step {lsp : LspState} (all : AllConsistent lsp.servers) {event : LspEvent}
    (smooth : FirstAndSmooth lsp event) : AllConsistent (step lsp event).servers := by
  cases event with
  | machine machine => exact all
  | call call world =>
      rw [LspEngine.step, perform]
      cases gate : ensurePath world.gate call.operation.capability call.path with
      | error error => exact all
      | ok passed =>
          have preparation := prepare_spec lsp.servers lsp.machine call.path call.workspace world
          have kept := preparation.consistent all
            (fun spec state source language server file outside =>
              smooth call world state rfl ⟨gate, ⟨spec, language, server⟩, ⟨source, file⟩, outside⟩)
          cases found : prepare lsp.servers lsp.machine call.path call.workspace world with
          | mk result servers =>
              rw [found] at kept
              obtain ⟨after, ready⟩ := kept
              cases result with
              | error error => exact after
              | ok prepared =>
                  obtain ⟨consistent, inside⟩ := ready prepared rfl
                  dsimp only
                  cases call.operation with
                  | diagnostics => exact after
                  | ask inquiry =>
                      have asked := after.insert prepared.key
                        (consistent.request inside inquiry world.requestExit)
                      dsimp only
                      cases requestResult inquiry.method world.fault world.requestExit with
                      | error error => exact asked
                      | ok value => exact asked

theorem acquire_of_spawn {servers : Servers} {key : String × String} {spec : ServerSpec}
    {world : CallWorld} (spawned : world.spawn = none) :
    ∃ state, acquire servers key spec world = .ok state := by
  rw [acquire]
  cases servers.lookup key with
  | some existing => exact ⟨existing, rfl⟩
  | none =>
      rw [spawnServer, spawned]
      exact ⟨_, rfl⟩

theorem prepare_known {servers : Servers} {machine : FileSystem} {path : String}
    {workspace : Option String} {world : CallWorld} {spec : ServerSpec} {state : ServerState}
    {source : String} (language : lspLanguageFor (extensionOf path) = some spec)
    (server : acquire servers (spec.language, rootOf path workspace) spec world = .ok state)
    (file : readToString machine path = .ok source) (inside : pathToUri path ∈ state.opened) :
    prepare servers machine path workspace world =
      (.ok ⟨(spec.language, rootOf path workspace), state, pathToUri path, source⟩,
        servers.insert (spec.language, rootOf path workspace) state) := by
  rw [prepare, language]
  dsimp only
  rw [server, file]
  dsimp only
  rw [if_pos inside]

theorem prepare_opened {servers : Servers} {machine : FileSystem} {path : String}
    {workspace : Option String} {world : CallWorld} {spec : ServerSpec} {state ready : ServerState}
    {source : String} (language : lspLanguageFor (extensionOf path) = some spec)
    (server : acquire servers (spec.language, rootOf path workspace) spec world = .ok state)
    (file : readToString machine path = .ok source) (outside : pathToUri path ∉ state.opened)
    (opening : state.openFile (rootOf path workspace) (pathToUri path) source world =
      (.ok (), ready)) :
    prepare servers machine path workspace world =
      (.ok ⟨(spec.language, rootOf path workspace), ready, pathToUri path, source⟩,
        servers.insert (spec.language, rootOf path workspace) ready) := by
  rw [prepare, language]
  dsimp only
  rw [server, file]
  dsimp only
  rw [if_neg outside, opening]

theorem prepare_failed {servers : Servers} {machine : FileSystem} {path : String}
    {workspace : Option String} {world : CallWorld} {spec : ServerSpec} {state tried : ServerState}
    {source : String} {error : DaemonError}
    (language : lspLanguageFor (extensionOf path) = some spec)
    (server : acquire servers (spec.language, rootOf path workspace) spec world = .ok state)
    (file : readToString machine path = .ok source) (outside : pathToUri path ∉ state.opened)
    (opening : state.openFile (rootOf path workspace) (pathToUri path) source world =
      (.error error, tried)) :
    prepare servers machine path workspace world =
      (.error error, servers.insert (spec.language, rootOf path workspace) tried) := by
  rw [prepare, language]
  dsimp only
  rw [server, file]
  dsimp only
  rw [if_neg outside, opening]

/-- The next call on a file completes what is missing on a consistent server. -/
theorem AllConsistent.completes {servers : Servers} (all : AllConsistent servers) (path : String)
    (workspace : Option String) : Completes servers path workspace := by
  intro machine world spec source spawned smooth language file
  obtain ⟨state, server⟩ : ∃ state,
      LspEngine.acquire servers (spec.language, rootOf path workspace) spec world = .ok state :=
    acquire_of_spawn spawned
  by_cases inside : pathToUri path ∈ state.opened
  · refine ⟨_, _, prepare_known language server file inside, ?_⟩
    exact ((all.acquire server).opened _).mp inside
  · obtain ⟨reply, ready, good, done, files, traffic⟩ := openFile_smooth smooth state
      (rootOf path workspace) (pathToUri path) source
    refine ⟨_, _, prepare_opened language server file inside done, ?_⟩
    show DidOpen ready.traffic (pathToUri path)
    rw [traffic, didOpen_append]
    exact .inr ⟨⟨none, "textDocument/didOpen", didOpenParams (pathToUri path) state.language
      source⟩, by simp [openingTraffic], rfl, uri_didOpenParams _ _ _⟩

/-- A prepared call adds to the traffic of its server at most. -/
theorem step_prepared {lsp : LspState} {call : LspCall} {world : CallWorld} {prepared : Prepared}
    {servers : Servers}
    (allowed : ensurePath world.gate call.operation.capability call.path = .ok ())
    (found : prepare lsp.servers lsp.machine call.path call.workspace world =
      (.ok prepared, servers)) (held : servers.lookup prepared.key = some prepared.state) :
    ∃ state extra, (step lsp (.call call world)).servers.lookup prepared.key = some state ∧
      state.traffic = prepared.state.traffic ++ extra := by
  rw [step, perform, allowed]
  dsimp only
  rw [found]
  dsimp only
  cases call.operation with
  | diagnostics => exact ⟨prepared.state, [], held, by simp⟩
  | ask inquiry =>
      obtain ⟨extra, same, -⟩ := traffic_request prepared.state inquiry.method
        (inquiry.params prepared.uri) world.requestExit
      refine ⟨_, extra, ?_, same⟩
      dsimp only
      cases requestResult inquiry.method world.fault world.requestExit with
      | error error => exact AList.lookup_insert _
      | ok value => exact AList.lookup_insert _

/-- An event on consistent servers obeys the protocol exactly when its openings come first and
succeed. -/
theorem obeys_iff {lsp : LspState} (all : AllConsistent lsp.servers) (event : LspEvent) :
    Obeys lsp event ↔ FirstAndSmooth lsp event := by
  constructor
  · rintro obeys call world state rfl ⟨allowed, ⟨spec, language, server⟩, ⟨source, file⟩, outside⟩
    have before := all.acquire server
    by_cases smooth : Handshake world
    · obtain ⟨reply, ready, good, done, files, traffic⟩ := openFile_smooth smooth state
        (rootOf call.path call.workspace) (pathToUri call.path) source
      have prepared := prepare_opened language server file outside done
      obtain ⟨after, extra, held, more⟩ := step_prepared allowed prepared (AList.lookup_insert _)
      have ordered := obeys.ordered _ after held
      rw [more, traffic, openingTraffic, List.append_assoc, List.cons_append] at ordered
      have first := (ordered state.traffic _ _ rfl _ rfl).starts.mp rfl
      refine ⟨?_, smooth⟩
      by_contra filled
      obtain ⟨other, inside⟩ := List.exists_mem_of_ne_nil _ filled
      obtain ⟨message, written, -⟩ := (before.opened other).mp inside
      exact first message written
    · obtain ⟨error, tried, done, files, never⟩ := openFile_rough smooth state
        (rootOf call.path call.workspace) (pathToUri call.path) source
      have prepared := prepare_failed language server file outside done
      have complete := obeys.retried call world error _ rfl allowed prepared lsp.machine
        { world with
          spawn := none
          initializeExit := .answered (.object [])
          initializedFault := false
          didOpenFault := false }
        spec source rfl ⟨⟨_, rfl, rfl⟩, rfl, rfl⟩ language file
      obtain ⟨next, after, again, shown⟩ := complete
      have inside : pathToUri call.path ∈ tried.opened := by
        rw [files]
        exact List.mem_cons_self
      have pooled : acquire (lsp.servers.insert (spec.language, rootOf call.path call.workspace)
          tried) (spec.language, rootOf call.path call.workspace) spec
          { world with
            spawn := none
            initializeExit := .answered (.object [])
            initializedFault := false
            didOpenFault := false } = .ok tried := by
        rw [acquire, AList.lookup_insert]
      rw [prepare_known language pooled file inside] at again
      obtain ⟨same, -⟩ := Prod.mk.inj again
      obtain rfl := Except.ok.inj same
      exact absurd ((before.opened _).mpr (never shown)) outside
  · intro smooth
    constructor
    · intro key state held
      exact (all.step smooth key state held).ordered
    · rintro call world error servers rfl allowed failed
      have preparation := prepare_spec lsp.servers lsp.machine call.path call.workspace world
      have kept := preparation.consistent all fun spec state source language server file outside =>
        smooth call world state rfl ⟨allowed, ⟨spec, language, server⟩, ⟨source, file⟩, outside⟩
      rw [failed] at kept
      exact AllConsistent.completes kept.1 call.path call.workspace

theorem allConsistent_start (machine : FileSystem) : AllConsistent (start machine).servers := by
  intro key state found
  rw [start, AList.lookup_empty] at found
  cases found

/-- Every event of a run obeys the session protocol exactly when every opening is the first one on
its server and none of its steps fails. -/
theorem session_protocol (machine : FileSystem) (events : List LspEvent) :
    Throughout (fun before event => Obeys (run step (start machine) before) event) events ↔
      Throughout (fun before event => FirstAndSmooth (run step (start machine) before) event)
        events := by
  exact Throughout.iff_of_step (fun lsp => AllConsistent lsp.servers) Obeys FirstAndSmooth
    (allConsistent_start machine) (fun lsp event all => obeys_iff all event) (fun lsp event all smooth => all.step smooth) events

/-- Two files of one project. -/
def twoSources : FileSystem :=
  (FileSystem.empty.put ["a.rs"] (.file [97])).put ["b.rs"] (.file [98])

/-- A world in which nothing fails. -/
def healthyWorld : CallWorld where
  gate := .ofScopes ⟨["desktop.fs.read", "desktop.fs.write"], ["/"]⟩
  processId := 7
  spawn := none
  writeError := "broken pipe"
  initializeExit := .answered (.object [("id", .ofNat 1), ("result", .object [])])
  initializedFault := false
  didOpenFault := false
  requestExit := .answered (.object [("id", .ofNat 2), ("result", .null)])
  published := none

/-- The second file of a server makes it initialize again. -/
theorem session_protocol_broken :
    ¬Throughout (fun before event => Obeys (run step (start twoSources) before) event)
      [.call ⟨"/a.rs", none, .diagnostics⟩ healthyWorld,
        .call ⟨"/b.rs", none, .diagnostics⟩ healthyWorld] := by
  intro all
  have second := all [.call ⟨"/a.rs", none, .diagnostics⟩ healthyWorld]
    (.call ⟨"/b.rs", none, .diagnostics⟩ healthyWorld) [] rfl
  have opened : ((step (start twoSources)
      (.call ⟨"/a.rs", none, .diagnostics⟩ healthyWorld)).servers.lookup ("rust", "/")).map
      ServerState.opened = some ["file:///a.rs"] := by
    decide +kernel
  obtain ⟨state, held, files⟩ := Option.map_eq_some_iff.mp opened
  have smooth : FirstAndSmooth (start twoSources)
      (.call ⟨"/a.rs", none, .diagnostics⟩ healthyWorld) := by
    rintro call world fresh same ⟨-, ⟨spec, -, server⟩, -, -⟩
    obtain ⟨rfl, rfl⟩ := LspEvent.call.inj same
    rw [acquire, start, AList.lookup_empty] at server
    obtain rfl := Except.ok.inj server
    exact ⟨rfl, ⟨_, rfl, rfl⟩, rfl, rfl⟩
  have consistent := (allConsistent_start twoSources).step smooth
  have first := (obeys_iff consistent _).mp second ⟨"/b.rs", none, .diagnostics⟩ healthyWorld state
    rfl ⟨by rfl, ⟨⟨"rust", "rust-analyzer", []⟩, by decide +kernel, ?_⟩, ⟨"b", ?_⟩, ?_⟩
  · rw [first.1] at files
    cases files
  · have key : (ServerSpec.mk "rust" "rust-analyzer" []).language = "rust" ∧
        rootOf "/b.rs" none = "/" := by
      decide
    rw [key.1, key.2, acquire, held]
  · decide +kernel
  · rw [files]
    decide

end LspEngine

end Daemon
