import SynthHiresBridge.Proof.LspProtocol

namespace Daemon

open Json Posix Transition

namespace LspEngine

/-- The text that a notification gives its document. -/
def documentText (message : LspMessage) : Option String :=
  if message.method = "textDocument/didOpen" then
    (message.params.pointer ["textDocument", "text"]).bind Value.asStr
  else if message.method = "textDocument/didChange" then
    (((message.params.get "contentChanges").bind Value.asArray).bind List.getLast?).bind fun change =>
      (change.get "text").bind Value.asStr
  else none

/-- A server hears the text of a document from the messages that name it. -/
def hears (uri : String) (held : Option String) : Traffic → Option String
  | .wrote message => if message.uri = some uri then (documentText message).or held else held
  | .answered _ _ => held

/-- The text that a server holds for a document. -/
def heldText (traffic : List Traffic) (uri : String) : Option String :=
  traffic.foldl (hears uri) none

theorem heldText_append (first second : List Traffic) (uri : String) :
    heldText (first ++ second) uri = second.foldl (hears uri) (heldText first uri) :=
  List.foldl_append

/-- A message that is no notification about a text leaves the text alone. -/
theorem hears_quiet {message : LspMessage} (opens : message.method ≠ "textDocument/didOpen")
    (changes : message.method ≠ "textDocument/didChange") (uri : String) (held : Option String) :
    hears uri held (.wrote message) = held := by
  rw [hears, documentText, if_neg opens, if_neg changes, Option.none_or, ite_self]

theorem heldText_request {state : ServerState} {method : String} {params : Value}
    {exit : Exit Value} (opens : method ≠ "textDocument/didOpen")
    (changes : method ≠ "textDocument/didChange") (uri : String) :
    heldText (state.request method params exit).traffic uri = heldText state.traffic uri := by
  obtain ⟨extra, same, shape⟩ := traffic_request state method params exit
  rw [same, heldText_append]
  rcases shape with rfl | rfl | ⟨reply, -, rfl⟩
  · rfl
  · exact hears_quiet opens changes uri _
  · exact hears_quiet opens changes uri _

theorem hears_didOpen (uri other language source : String) (held : Option String) :
    hears other held (.wrote ⟨none, "textDocument/didOpen", didOpenParams uri language source⟩) =
      if uri = other then some source else held := by
  have text : documentText ⟨none, "textDocument/didOpen", didOpenParams uri language source⟩ =
      some source := by
    rw [documentText, if_pos rfl]
    rfl
  rw [hears, uri_didOpenParams, text, Option.some_or]
  simp only [Option.some.injEq]

/-- An opening gives the server the text, or it leaves all texts as they were. -/
theorem heldText_openingTraffic (state : ServerState) (root uri source : String)
    (world : CallWorld) (reply : Value) (other : String) :
    heldText (state.traffic ++ openingTraffic state root uri source world reply) other =
      if uri = other then some source else heldText state.traffic other := by
  rw [heldText_append, openingTraffic]
  simp only [List.foldl_cons, List.foldl_nil]
  rw [hears_didOpen, hears_quiet (by simp) (by simp)]
  congr 1

theorem heldText_openFile_rough {world : CallWorld} (rough : ¬Handshake world)
    (state : ServerState) (root uri source other : String) :
    heldText (state.openFile root uri source world).2.traffic other =
      heldText state.traffic other := by
  have unasked : ∀ params exit, heldText
      (({ state with opened := uri :: state.opened }).request "initialize" params exit).traffic other =
        heldText state.traffic other := by
    intro params exit
    exact heldText_request (by simp) (by simp) other
  rw [ServerState.openFile, ServerState.initializeServer]
  cases asked : initializeResult world.fault world.initializeExit with
  | error error => exact unasked _ _
  | ok _ =>
      cases initialized : world.initializedFault with
      | true => exact unasked _ _
      | false =>
          cases didOpen : world.didOpenFault with
          | true =>
              show heldText (_ ++ [_]) other = _
              rw [heldText_append, List.foldl_cons, List.foldl_nil,
                hears_quiet (by simp) (by simp)]
              exact unasked _ _
          | false => exact absurd ⟨initializeResult_ok asked, initialized, didOpen⟩ rough

/-- The files that are in the set of the server of a key. -/
def openedOn (servers : Servers) (key : String × String) : List String :=
  match servers.lookup key with
  | some state => state.opened
  | none => []

/-- The text that the server of a key holds for a document. -/
def heldOn (servers : Servers) (key : String × String) (uri : String) : Option String :=
  match servers.lookup key with
  | some state => heldText state.traffic uri
  | none => none

theorem acquired {servers : Servers} {key : String × String} {spec : ServerSpec}
    {world : CallWorld} {state : ServerState} (server : acquire servers key spec world = .ok state) :
    state.opened = openedOn servers key ∧
      ∀ uri, heldText state.traffic uri = heldOn servers key uri := by
  rw [acquire] at server
  rw [openedOn]
  simp only [heldOn]
  cases found : servers.lookup key with
  | some existing =>
      rw [found] at server
      obtain rfl := Except.ok.inj server
      exact ⟨rfl, fun _ => rfl⟩
  | none =>
      rw [found, spawnServer] at server
      cases spawned : world.spawn with
      | some fault => cases fault <;> (rw [spawned] at server; cases server)
      | none =>
          rw [spawned] at server
          obtain rfl := Except.ok.inj server
          exact ⟨rfl, fun _ => rfl⟩

theorem openedOn_insert (servers : Servers) (key other : String × String) (state : ServerState) :
    openedOn (servers.insert key state) other =
      if other = key then state.opened else openedOn servers other := by
  by_cases same : other = key
  · rw [if_pos same, same, openedOn, AList.lookup_insert]
  · rw [if_neg same, openedOn, AList.lookup_insert_ne same, openedOn]

theorem heldOn_insert (servers : Servers) (key other : String × String) (state : ServerState)
    (uri : String) : heldOn (servers.insert key state) other uri =
      if other = key then heldText state.traffic uri else heldOn servers other uri := by
  by_cases same : other = key
  · rw [if_pos same, same, heldOn, AList.lookup_insert]
  · rw [if_neg same, heldOn, AList.lookup_insert_ne same, heldOn]

/-- A call opens a file on the server of a key, and this is the text it reads. -/
structure Opening (lsp : LspState) (call : LspCall) (world : CallWorld) (key : String × String)
    (uri text : String) : Prop where
  allowed : ensurePath world.gate call.operation.capability call.path = .ok ()
  named : pathToUri call.path = uri
  server : ∃ spec state, lspLanguageFor (extensionOf call.path) = some spec ∧
    (spec.language, rootOf call.path call.workspace) = key ∧
    acquire lsp.servers key spec world = .ok state
  readable : readToString lsp.machine call.path = .ok text
  fresh : uri ∉ openedOn lsp.servers key

theorem Opening.unique {lsp : LspState} {call : LspCall} {world : CallWorld}
    {key other : String × String} {uri file text content : String}
    (one : Opening lsp call world key uri text) (two : Opening lsp call world other file content) :
    key = other ∧ uri = file ∧ text = content := by
  obtain ⟨-, named, ⟨spec, state, language, rfl, -⟩, read, -⟩ := one
  obtain ⟨-, named', ⟨spec', state', language', rfl, -⟩, read', -⟩ := two
  obtain rfl := Option.some.inj (language.symm.trans language')
  exact ⟨rfl, named.symm.trans named', Except.ok.inj (read.symm.trans read')⟩

/-- Two pools have the same files open with the same texts. -/
def SameFiles (servers after : Servers) : Prop :=
  ∀ key, openedOn after key = openedOn servers key ∧
    ∀ uri, heldOn after key uri = heldOn servers key uri

/-- One file more is open, and its text is held when the opening succeeded. -/
structure OneMore (servers after : Servers) (world : CallWorld) (key : String × String)
    (uri text : String) : Prop where
  opened : ∀ other, openedOn after other =
    if other = key then uri :: openedOn servers key else openedOn servers other
  smooth : Handshake world → heldOn after key uri = some text
  rough : ¬Handshake world → heldOn after key uri = heldOn servers key uri
  others : ∀ other file, ¬(other = key ∧ file = uri) → heldOn after other file =
    heldOn servers other file

theorem SameFiles.refl (servers : Servers) : SameFiles servers servers :=
  fun _ => ⟨rfl, fun _ => rfl⟩

/-- A row that has the same files and texts changes nothing. -/
theorem SameFiles.insert {servers after : Servers} (same : SameFiles servers after)
    {key : String × String} {state : ServerState} (opened : state.opened = openedOn servers key)
    (held : ∀ uri, heldText state.traffic uri = heldOn servers key uri) :
    SameFiles servers (after.insert key state) := by
  intro other
  rw [openedOn_insert]
  by_cases own : other = key
  · subst own
    refine ⟨by rw [if_pos rfl, opened], fun uri => ?_⟩
    rw [heldOn_insert, if_pos rfl, held]
  · refine ⟨by rw [if_neg own, (same other).1], fun uri => ?_⟩
    rw [heldOn_insert, if_neg own, (same other).2]

theorem SameFiles.trans {first second third : Servers} (before : SameFiles first second)
    (after : SameFiles second third) : SameFiles first third := by
  intro key
  refine ⟨(after key).1.trans (before key).1, fun uri => ?_⟩
  exact ((after key).2 uri).trans ((before key).2 uri)

theorem OneMore.trans {servers after later : Servers} {world : CallWorld} {key : String × String}
    {uri text : String} (more : OneMore servers after world key uri text)
    (same : SameFiles after later) : OneMore servers later world key uri text := by
  constructor
  · intro other
    rw [(same other).1, more.opened]
  · intro smooth
    rw [(same key).2, more.smooth smooth]
  · intro rough
    rw [(same key).2, more.rough rough]
  · intro other file apart
    rw [(same other).2, more.others other file apart]

/-- A row with one more file opens it on its server. -/
theorem oneMore_insert {servers : Servers} {world : CallWorld} {key : String × String}
    {uri text : String} {state after : ServerState} (opened : state.opened = openedOn servers key)
    (held : ∀ uri, heldText state.traffic uri = heldOn servers key uri)
    (files : after.opened = uri :: state.opened)
    (smooth : Handshake world → ∀ other, heldText after.traffic other =
      if uri = other then some text else heldText state.traffic other)
    (rough : ¬Handshake world → ∀ other, heldText after.traffic other =
      heldText state.traffic other) :
    OneMore servers (servers.insert key after) world key uri text := by
  constructor
  · intro other
    rw [openedOn_insert, files, opened]
  · intro good
    rw [heldOn_insert, if_pos rfl, smooth good, if_pos rfl]
  · intro bad
    rw [heldOn_insert, if_pos rfl, rough bad, held]
  · intro other file apart
    rw [heldOn_insert]
    by_cases own : other = key
    · subst own
      have different : uri ≠ file := fun same => apart ⟨rfl, same.symm⟩
      rw [if_pos rfl, ← held]
      by_cases good : Handshake world
      · rw [smooth good, if_neg different]
      · rw [rough good]
    · rw [if_neg own]

/-- An opening that fails puts its file into the set only. -/
theorem openFile_error {world : CallWorld} {state tried : ServerState}
    {root uri source : String} {error : DaemonError}
    (opening : state.openFile root uri source world = (.error error, tried)) :
    ¬Handshake world ∧ tried.opened = uri :: state.opened := by
  have rough : ¬Handshake world := by
    intro smooth
    obtain ⟨reply, ready, -, done, -⟩ := openFile_smooth smooth state root uri source
    rw [opening] at done
    cases done
  obtain ⟨other, after, same, files, -⟩ := openFile_rough rough state root uri source
  rw [opening] at same
  obtain ⟨-, rfl⟩ := Prod.mk.inj same
  exact ⟨rough, files⟩

theorem openFile_ok {world : CallWorld} {state ready : ServerState} {root uri source : String}
    (opening : state.openFile root uri source world = (.ok (), ready)) :
    Handshake world ∧ ready.opened = uri :: state.opened ∧
      ∃ reply, ready.traffic = state.traffic ++ openingTraffic state root uri source world reply := by
  have smooth : Handshake world := by
    by_contra rough
    obtain ⟨error, tried, done, -⟩ := openFile_rough rough state root uri source
    rw [opening] at done
    cases done
  obtain ⟨reply, other, -, same, files, traffic⟩ := openFile_smooth smooth state root uri source
  rw [opening] at same
  obtain ⟨-, rfl⟩ := Prod.mk.inj same
  exact ⟨smooth, files, reply, traffic⟩

theorem OneMore.mem_opened {before after : Servers} {world : CallWorld} {key : String × String}
    {uri text : String} (more : OneMore before after world key uri text) {other : String × String}
    {file : String} :
    file ∈ openedOn after other ↔ (other = key ∧ file = uri) ∨ file ∈ openedOn before other := by
  rw [more.opened]
  split
  · rename_i own
    rw [own, List.mem_cons]
    simp
  · rename_i apart
    simp [apart]

/-- A preparation keeps the files of the pool, or it opens its own. -/
theorem Preparation.files {servers after : Servers} {machine : FileSystem} {path : String}
    {workspace : Option String} {world : CallWorld} {result : Except DaemonError Prepared}
    (preparation : Preparation servers machine path workspace world result after) :
    (∀ prepared, result = .ok prepared → prepared.state.opened = openedOn after prepared.key ∧
      ∀ uri, heldText prepared.state.traffic uri = heldOn after prepared.key uri) ∧
    (SameFiles servers after ∧ (∀ spec state text,
        lspLanguageFor (extensionOf path) = some spec →
        acquire servers (spec.language, rootOf path workspace) spec world = .ok state →
        readToString machine path = .ok text →
        pathToUri path ∈ openedOn servers (spec.language, rootOf path workspace)) ∨
      ∃ spec state text, lspLanguageFor (extensionOf path) = some spec ∧
        acquire servers (spec.language, rootOf path workspace) spec world = .ok state ∧
        readToString machine path = .ok text ∧
        pathToUri path ∉ openedOn servers (spec.language, rootOf path workspace) ∧
        OneMore servers after world (spec.language, rootOf path workspace) (pathToUri path) text) := by
  cases preparation with
  | unserved error none =>
      refine ⟨nofun, .inl ⟨SameFiles.refl servers, ?_⟩⟩
      intro spec state text language server
      obtain ⟨error, failed⟩ := none spec language
      rw [server] at failed
      cases failed
  | unread spec state error language server file =>
      obtain ⟨opened, held⟩ := acquired server
      refine ⟨nofun, .inl ⟨(SameFiles.refl servers).insert opened held, ?_⟩⟩
      intro spec state text _ _ read
      rw [file] at read
      cases read
  | known spec state source language server file inside =>
      obtain ⟨opened, held⟩ := acquired server
      refine ⟨?_, .inl ⟨(SameFiles.refl servers).insert opened held, ?_⟩⟩
      · intro prepared same
        obtain rfl := Except.ok.inj same
        refine ⟨by rw [openedOn_insert, if_pos rfl], fun uri => ?_⟩
        rw [heldOn_insert, if_pos rfl]
      · intro other state text language' server' read
        obtain rfl := Option.some.inj (language.symm.trans language')
        rw [← opened]
        exact inside
  | failed spec state source error tried language server file outside opening =>
      obtain ⟨opened, held⟩ := acquired server
      obtain ⟨rough, files⟩ := openFile_error opening
      refine ⟨nofun, .inr ⟨spec, state, source, language, server, file, opened ▸ outside, ?_⟩⟩
      refine oneMore_insert opened held files (fun smooth => absurd smooth rough) ?_
      intro _ other
      have same := heldText_openFile_rough rough state (rootOf path workspace) (pathToUri path)
        source other
      rwa [opening] at same
  | opened spec state source ready language server file outside opening =>
      obtain ⟨opened, held⟩ := acquired server
      obtain ⟨smooth, files, reply, traffic⟩ := openFile_ok opening
      refine ⟨?_, .inr ⟨spec, state, source, language, server, file, opened ▸ outside, ?_⟩⟩
      · intro prepared same
        obtain rfl := Except.ok.inj same
        refine ⟨by rw [openedOn_insert, if_pos rfl], fun uri => ?_⟩
        rw [heldOn_insert, if_pos rfl]
      · refine oneMore_insert opened held files ?_ (fun rough => absurd smooth rough)
        intro _ other
        rw [traffic, heldText_openingTraffic]

theorem Inquiry.method_ne_didChange (inquiry : Inquiry) :
    inquiry.method ≠ "textDocument/didChange" := by
  cases inquiry with
  | hover line character => simp [method]
  | definition line character => simp [method]
  | rename line character newName => simp [method]

/-- The request of a call changes neither the files nor the texts. -/
theorem perform_files {lsp : LspState} {call : LspCall} {world : CallWorld}
    (allowed : ensurePath world.gate call.operation.capability call.path = .ok ()) :
    SameFiles (prepare lsp.servers lsp.machine call.path call.workspace world).2
      (perform lsp call world).2.servers := by
  have ready := (prepare_spec lsp.servers lsp.machine call.path call.workspace world).files.1
  rw [perform, allowed]
  dsimp only
  generalize prepare lsp.servers lsp.machine call.path call.workspace world = preparation at ready ⊢
  obtain ⟨result, servers⟩ := preparation
  cases result with
  | error error => exact SameFiles.refl servers
  | ok prepared =>
      obtain ⟨opened, held⟩ := ready prepared rfl
      dsimp only
      cases call.operation with
      | diagnostics => exact SameFiles.refl servers
      | ask inquiry =>
          have asked : SameFiles servers (servers.insert prepared.key (prepared.state.request
              inquiry.method (inquiry.params prepared.uri) world.requestExit)) := by
            refine (SameFiles.refl servers).insert opened fun uri => ?_
            rw [heldText_request inquiry.method_ne.1 inquiry.method_ne_didChange, held]
          dsimp only
          cases requestResult inquiry.method world.fault world.requestExit with
          | error error => exact asked
          | ok value => exact asked

/-- An event keeps the files of the pool, or it is a call that opens a file. -/
theorem step_files (lsp : LspState) (event : LspEvent) :
    (SameFiles lsp.servers (step lsp event).servers ∧
      ∀ call world key uri text, event = .call call world →
        ¬Opening lsp call world key uri text) ∨
    ∃ call world key uri text, event = .call call world ∧ Opening lsp call world key uri text ∧
      OneMore lsp.servers (step lsp event).servers world key uri text := by
  cases event with
  | machine machine =>
      refine .inl ⟨SameFiles.refl _, ?_⟩
      intro call world key uri text same
      cases same
  | call call world =>
      cases gate : ensurePath world.gate call.operation.capability call.path with
      | error error =>
          left
          constructor
          · rw [step, perform, gate]
            exact SameFiles.refl _
          · rintro call world key uri text same ⟨allowed, -, -, -, -⟩
            obtain ⟨rfl, rfl⟩ := LspEvent.call.inj same
            rw [gate] at allowed
            cases allowed
      | ok passed =>
          have asked : SameFiles (prepare lsp.servers lsp.machine call.path call.workspace world).2
              (perform lsp call world).2.servers := perform_files gate
          have files := (prepare_spec lsp.servers lsp.machine call.path call.workspace world).files.2
          rcases files with ⟨same, known⟩ | ⟨spec, state, text, language, server, read, fresh, more⟩
          · left
            refine ⟨same.trans asked, ?_⟩
            rintro call world key uri text same' ⟨-, rfl, ⟨spec, state, language, rfl, server⟩,
              read, fresh⟩
            obtain ⟨rfl, rfl⟩ := LspEvent.call.inj same'
            exact fresh (known spec state text language server read)
          · right
            exact ⟨call, world, _, _, text, rfl, ⟨gate, rfl, ⟨spec, state, language, rfl, server⟩,
              read, fresh⟩, more.trans asked⟩

/-- A file was opened on the server of a key in a run, with the text that was read then. -/
def OpenedBefore (machine : FileSystem) (before : List LspEvent) (key : String × String)
    (uri text : String) (world : CallWorld) : Prop :=
  ∃ front call back, before = front ++ .call call world :: back ∧
    Opening (run step (start machine) front) call world key uri text

theorem openedBefore_concat {machine : FileSystem} {before : List LspEvent} {event : LspEvent}
    {key : String × String} {uri text : String} {world : CallWorld} :
    OpenedBefore machine (before ++ [event]) key uri text world ↔
      OpenedBefore machine before key uri text world ∨
        ∃ call, event = .call call world ∧
          Opening (run step (start machine) before) call world key uri text := by
  constructor
  · rintro ⟨front, call, back, same, opening⟩
    induction back using List.reverseRecOn with
    | nil =>
        obtain ⟨rfl, one⟩ := List.append_inj' same rfl
        exact .inr ⟨call, (List.cons.inj one).1, opening⟩
    | append_singleton more final _ =>
        have parts : before ++ [event] = (front ++ .call call world :: more) ++ [final] := by
          rw [same, List.append_assoc, List.cons_append]
        exact .inl ⟨front, call, more, (List.append_inj' parts rfl).1, opening⟩
  · rintro (⟨front, call, back, rfl, opening⟩ | ⟨call, rfl, opening⟩)
    · exact ⟨front, call, back ++ [event], by simp, opening⟩
    · exact ⟨before, call, [], rfl, opening⟩

/-- The files of the servers and their texts come from the openings of the run. -/
structure History (machine : FileSystem) (before : List LspEvent) : Prop where
  known : ∀ key uri text world, OpenedBefore machine before key uri text world →
    uri ∈ openedOn (run step (start machine) before).servers key ∧
    (Handshake world → heldOn (run step (start machine) before).servers key uri = some text) ∧
    (¬Handshake world → heldOn (run step (start machine) before).servers key uri = none)
  origin : ∀ key uri, uri ∈ openedOn (run step (start machine) before).servers key →
    ∃ text world, OpenedBefore machine before key uri text world
  silent : ∀ key uri, uri ∉ openedOn (run step (start machine) before).servers key →
    heldOn (run step (start machine) before).servers key uri = none

theorem history_start (machine : FileSystem) : History machine [] := by
  have empty : ∀ key, openedOn (start machine).servers key = [] := by
    intro key
    rw [openedOn, start, AList.lookup_empty]
  constructor
  · rintro key uri text world ⟨front, call, back, same, -⟩
    simp at same
  · intro key uri inside
    rw [run_nil, empty] at inside
    cases inside
  · intro key uri _
    rw [run_nil, heldOn, start, AList.lookup_empty]

/-- An event that opens nothing keeps the history. -/
theorem History.idle {machine : FileSystem} {before : List LspEvent} (history : History machine before)
    {event : LspEvent}
    (same : SameFiles (run LspEngine.step (start machine) before).servers
      (LspEngine.step (run LspEngine.step (start machine) before) event).servers)
    (none : ∀ call world key uri text, event = .call call world →
      ¬Opening (run LspEngine.step (start machine) before) call world key uri text) :
    History machine (before ++ [event]) := by
  constructor
  · intro key uri text world opened
    rw [run_concat, (same key).1, (same key).2]
    rcases openedBefore_concat.mp opened with old | ⟨call, now, opening⟩
    · exact history.known key uri text world old
    · exact absurd opening (none call world key uri text now)
  · intro key uri inside
    rw [run_concat, (same key).1] at inside
    obtain ⟨text, world, old⟩ := history.origin key uri inside
    exact ⟨text, world, openedBefore_concat.mpr (.inl old)⟩
  · intro key uri outside
    rw [run_concat, (same key).1] at outside
    rw [run_concat, (same key).2]
    exact history.silent key uri outside

/-- A call that opens a file adds it to the history. -/
theorem History.opens {machine : FileSystem} {before : List LspEvent}
    (history : History machine before) {call : LspCall} {world : CallWorld} {key : String × String}
    {uri text : String}
    (opening : Opening (run LspEngine.step (start machine) before) call world key uri text)
    (more : OneMore (run LspEngine.step (start machine) before).servers
      (LspEngine.step (run LspEngine.step (start machine) before) (.call call world)).servers world key
      uri text) : History machine (before ++ [.call call world]) := by
  constructor
  · intro other file content world' opened
    rw [run_concat]
    rcases openedBefore_concat.mp opened with old | ⟨call', now, opening'⟩
    · obtain ⟨inside, smooth, rough⟩ := history.known other file content world' old
      have apart : ¬(other = key ∧ file = uri) := by
        rintro ⟨rfl, rfl⟩
        exact opening.fresh inside
      rw [more.others other file apart]
      exact ⟨more.mem_opened.mpr (.inr inside), smooth, rough⟩
    · obtain ⟨rfl, rfl⟩ := LspEvent.call.inj now
      obtain ⟨rfl, rfl, rfl⟩ := opening.unique opening'
      refine ⟨more.mem_opened.mpr (.inl ⟨rfl, rfl⟩), more.smooth, fun rough => ?_⟩
      rw [more.rough rough]
      exact history.silent key uri opening.fresh
  · intro other file inside
    rw [run_concat] at inside
    rcases more.mem_opened.mp inside with ⟨rfl, rfl⟩ | old
    · exact ⟨text, world, openedBefore_concat.mpr (.inr ⟨call, rfl, opening⟩)⟩
    · obtain ⟨content, world', old⟩ := history.origin other file old
      exact ⟨content, world', openedBefore_concat.mpr (.inl old)⟩
  · intro other file outside
    rw [run_concat] at outside
    rw [run_concat]
    have apart : ¬(other = key ∧ file = uri) := fun own => outside (more.mem_opened.mpr (.inl own))
    rw [more.others other file apart]
    exact history.silent other file fun inside => outside (more.mem_opened.mpr (.inr inside))

theorem History.step {machine : FileSystem} {before : List LspEvent}
    (history : History machine before) (event : LspEvent) :
    History machine (before ++ [event]) := by
  rcases step_files (run LspEngine.step (start machine) before) event with
    ⟨same, none⟩ | ⟨call, world, key, uri, text, rfl, opening, more⟩
  · exact history.idle same none
  · exact history.opens opening more

theorem history (machine : FileSystem) (before : List LspEvent) : History machine before := by
  induction before using List.reverseRecOn with
  | nil => exact history_start machine
  | append_singleton before event ih => exact ih.step event

/-- A call is prepared and sends the request of an inquiry. -/
structure Sends (lsp : LspState) (event : LspEvent) (world : CallWorld) (prepared : Prepared) :
    Prop where
  call : ∃ call inquiry servers, event = .call call world ∧ call.operation = .ask inquiry ∧
    ensurePath world.gate call.operation.capability call.path = .ok () ∧
    prepare lsp.servers lsp.machine call.path call.workspace world = (.ok prepared, servers)

/-- A prepared call has its file open on its server, or it has just opened it. -/
theorem Sends.opened {lsp : LspState} {event : LspEvent} {world : CallWorld} {prepared : Prepared}
    (sends : Sends lsp event world prepared) :
    (prepared.uri ∈ openedOn lsp.servers prepared.key ∧
      heldText prepared.state.traffic prepared.uri = heldOn lsp.servers prepared.key prepared.uri) ∨
    prepared.uri ∉ openedOn lsp.servers prepared.key ∧
      heldText prepared.state.traffic prepared.uri = some prepared.source := by
  obtain ⟨call, inquiry, servers, rfl, asks, allowed, found⟩ := sends.call
  have preparation := prepare_spec lsp.servers lsp.machine call.path call.workspace world
  rw [found] at preparation
  dsimp only at preparation
  cases preparation with
  | known spec state source language server file inside =>
      obtain ⟨opened, held⟩ := acquired server
      exact .inl ⟨opened ▸ inside, held _⟩
  | opened spec state source ready language server file outside opening =>
      obtain ⟨opened, held⟩ := acquired server
      obtain ⟨smooth, files, reply, traffic⟩ := openFile_ok opening
      refine .inr ⟨opened ▸ outside, ?_⟩
      dsimp only
      rw [traffic, heldText_openingTraffic, if_pos rfl]

/-- At every request of a run the server holds the text that was just read from the disk, exactly
when every file reads as it did when its server opened it, and that opening succeeded. -/
theorem text_fresh (machine : FileSystem) (events : List LspEvent) :
    Throughout (fun before event => ∀ world prepared,
        Sends (run step (start machine) before) event world prepared →
        heldText prepared.state.traffic prepared.uri = some prepared.source) events ↔
      Throughout (fun before event => ∀ world prepared,
        Sends (run step (start machine) before) event world prepared →
        ∀ text opener, OpenedBefore machine before prepared.key prepared.uri text opener →
          Handshake opener ∧ text = prepared.source) events := by
  have each : ∀ before event world prepared,
      Sends (run step (start machine) before) event world prepared →
      (heldText prepared.state.traffic prepared.uri = some prepared.source ↔
        ∀ text opener, OpenedBefore machine before prepared.key prepared.uri text opener →
          Handshake opener ∧ text = prepared.source) := by
    intro before event world prepared sends
    have past := history machine before
    rcases sends.opened with ⟨inside, held⟩ | ⟨outside, held⟩
    · rw [held]
      constructor
      · intro fresh text opener opened
        obtain ⟨-, smooth, rough⟩ := past.known _ _ text opener opened
        by_cases good : Handshake opener
        · rw [smooth good] at fresh
          exact ⟨good, Option.some.inj fresh⟩
        · rw [rough good] at fresh
          cases fresh
      · intro unchanged
        obtain ⟨text, opener, opened⟩ := past.origin _ _ inside
        obtain ⟨good, same⟩ := unchanged text opener opened
        rw [(past.known _ _ text opener opened).2.1 good, same]
    · refine iff_of_true held ?_
      intro text opener opened
      exact absurd (past.known _ _ text opener opened).1 outside
  constructor
  · intro all before event rest same world prepared sends
    exact (each before event world prepared sends).mp (all before event rest same world prepared sends)
  · intro all before event rest same world prepared sends
    exact (each before event world prepared sends).mpr
      (all before event rest same world prepared sends)

/-- The file changes between two calls, and the server still holds its first text. -/
theorem text_stale :
    ¬Throughout (fun before event => ∀ world prepared,
        Sends (run step (start twoSources) before) event world prepared →
        heldText prepared.state.traffic prepared.uri = some prepared.source)
      [.call ⟨"/a.rs", none, .ask (.hover 1 0)⟩ healthyWorld,
        .machine (twoSources.put ["a.rs"] (.file [98])),
        .call ⟨"/a.rs", none, .ask (.rename 1 0 "c")⟩ healthyWorld] := by
  intro all
  have fresh := all [.call ⟨"/a.rs", none, .ask (.hover 1 0)⟩ healthyWorld,
      .machine (twoSources.put ["a.rs"] (.file [98]))]
    (.call ⟨"/a.rs", none, .ask (.rename 1 0 "c")⟩ healthyWorld) [] rfl healthyWorld
  have first : ((step (start twoSources)
      (.call ⟨"/a.rs", none, .ask (.hover 1 0)⟩ healthyWorld)).servers.lookup ("rust", "/")).map
      (fun state => (state.opened, heldText state.traffic "file:///a.rs")) =
        some (["file:///a.rs"], some "a") := by
    decide +kernel
  obtain ⟨state, held, files⟩ := Option.map_eq_some_iff.mp first
  obtain ⟨opened, text⟩ := Prod.mk.inj files
  have uri : pathToUri "/a.rs" = "file:///a.rs" := by decide
  have key : (ServerSpec.mk "rust" "rust-analyzer" []).language = "rust" ∧
      rootOf "/a.rs" none = "/" := by
    decide
  have language : lspLanguageFor (extensionOf "/a.rs") = some ⟨"rust", "rust-analyzer", []⟩ := by
    decide +kernel
  have server : acquire (step (start twoSources)
      (.call ⟨"/a.rs", none, .ask (.hover 1 0)⟩ healthyWorld)).servers
      ((ServerSpec.mk "rust" "rust-analyzer" []).language, rootOf "/a.rs" none)
      ⟨"rust", "rust-analyzer", []⟩ healthyWorld = .ok state := by
    rw [key.1, key.2, acquire, held]
  have file : readToString (twoSources.put ["a.rs"] (.file [98])) "/a.rs" = .ok "b" := by
    decide
  have inside : pathToUri "/a.rs" ∈ state.opened := by
    rw [uri, opened]
    exact List.mem_cons_self
  have prepared := prepare_known language server file inside
  have stale := fresh _ ⟨_, _, _, rfl, rfl, by rfl, prepared⟩
  dsimp only at stale
  rw [uri, text] at stale
  simp at stale

end LspEngine

end Daemon
