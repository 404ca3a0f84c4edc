import SynthHiresBridge.Proof.EvalBooks
import SynthHiresBridge.Transition.Run

namespace Daemon

open Json Transition

namespace EvalEngine

/-- The session and the context of a console line that comes next. -/
def JsRuntime.nextConsole (runtime : JsRuntime) : Option (String × Nat) :=
  match runtime.written[runtime.taken]? with
  | some (.console context _ session _ _) => some (session, context)
  | _ => none

namespace EvalWorld

/-- A console line goes to the call of its session, or it is kept for its session if that lives. -/
theorem receive_console (world : EvalWorld) (call : EvalCall) (requestId : String) (deadline : Nat)
    (output : PendingOut) (origin : Option Context) {context : Nat} {id : Option String}
    {session text : String} {stream : Stream} {message : Value}
    (value : (Frame.console context id session stream (some text)).value = some message) :
    world.receive call requestId deadline output origin message =
      if session = call.session then
        let heard := output.append stream (some (.string text)) origin
        { world with call := some { call with stage := .reading requestId deadline heard } }
      else if (world.inner.sessions.lookup session).isSome then
        let slot := (world.inner.pending.lookup session).getD .empty
        { world with inner := { world.inner with
            pending := world.inner.pending.insert session
              (slot.append stream (some (.string text)) origin) } }
      else world := by
  cases value
  cases stream with
  | stdout =>
      show (if some session = some call.session ∨ some session = none ∧ _ then _ else _) = _
      simp only [Option.some.injEq, reduceCtorEq, false_and, or_false]
      rfl
  | stderr =>
      show (if some session = some call.session ∨ some session = none ∧ _ then _ else _) = _
      simp only [Option.some.injEq, reduceCtorEq, false_and, or_false]
      rfl

/-- A line that ends a call gives it the output that was read for it. -/
theorem receive_end (world : EvalWorld) (call : EvalCall) (requestId : String) (deadline : Nat)
    (output : PendingOut) (origin : Option Context) {message : Value}
    (kind : message.get "type" = some (.string "done") ∨ message.get "type" = some (.string "error")) :
    world.receive call requestId deadline output origin message = world ∨
      ∃ outcome, (Answer.mk (world.serving call.session) outcome).output = output ∧
        world.receive call requestId deadline output origin message = world.complete call outcome := by
  rw [receive.eq_def]
  rcases kind with done | error
  · rw [done]
    by_cases own : (message.get "id").bind Value.asStr = some requestId
    · exact .inr ⟨_, rfl, if_pos own⟩
    · exact .inl (if_neg own)
  · rw [error]
    by_cases own : (message.get "id").bind Value.asStr = some requestId
    · exact .inr ⟨_, rfl, if_pos own⟩
    · exact .inl (if_neg own)

theorem type_done {id : String} {session : Option String} {result : Option Value}
    {created : Option Bool} {message : Value}
    (value : (Frame.done id session result created).value = some message) :
    message.get "type" = some (.string "done") := by
  obtain ⟨result, -, rfl⟩ := Option.map_eq_some_iff.mp value
  cases session with
  | none => rfl
  | some session => rfl

theorem type_error {id session : String} {text : Option String} {created : Bool} {message : Value}
    (value : (Frame.error id session text created).value = some message) :
    message.get "type" = some (.string "error") := by
  obtain ⟨text, -, rfl⟩ := Option.map_eq_some_iff.mp value
  rfl

/-- The call that reads meets a console line for a session in use, from a context that the session
no longer has. -/
def MeetsStale (world : EvalWorld) : Prop :=
  world.books.reader.isSome ∧ ∃ runtime ∈ world.inner.runtime, ∃ line ∈ runtime.nextConsole,
    world.books.InUse line.1 ∧
      (runtime.settled.entries.lookup line.1).map JsEntry.context ≠ some line.2

instance (books : Books) (session : String) : Decidable (books.InUse session) :=
  decidable_of_iff
    ((books.sessions.lookup session).isSome ∨ books.reader.map Prod.fst = some session) <| by
      simp [Books.InUse]

instance (world : EvalWorld) : Decidable world.MeetsStale :=
  inferInstanceAs (Decidable (world.books.reader.isSome ∧ ∃ runtime ∈ world.inner.runtime,
    ∃ line ∈ runtime.nextConsole, world.books.InUse line.1 ∧
      (runtime.settled.entries.lookup line.1).map JsEntry.context ≠ some line.2))

def Permits (world : EvalWorld) : EvalEvent → Prop
  | .read => ¬world.MeetsStale
  | .runtime event => JsRuntime.Unicode event
  | _ => True

theorem sound_runtime {world : EvalWorld} (sound : world.books.Sound) {event : JsEvent}
    (unicode : JsRuntime.Unicode event) :
    (world.step (.runtime event)).books.Sound ∧
      Books.Moves world.books (world.step (.runtime event)).books := by
  cases held : world.inner.runtime with
  | none =>
      have same : (world.step (.runtime event)).books = world.books := by
        simp [step, books, held]
      rw [same]
      exact ⟨sound, .refl _⟩
  | some runtime =>
      have lively := (sound.runtime runtime held).1
      obtain ⟨later, advances⟩ := JsRuntime.step_advances lively unicode
      have same : (world.step (.runtime event)).books =
          { world.books with runtime := some (runtime.step event) } := by
        simp [step, books, held]
      rw [same]
      exact sound.advance held advances later

theorem sound_kill {world : EvalWorld} (sound : world.books.Sound) (text : String) :
    (world.kill text).books.Sound ∧ Books.Moves world.books (world.kill text).books :=
  Books.follow sound.lose fun lost => lost.fail (.protocol text)

/-- A call that does not read yet fails. -/
theorem books_fail {world : EvalWorld} (idle : world.books.reader = none) (error : DaemonError) :
    (world.fail error).books =
      { world.books with answers := world.books.answers ++ [⟨none, .error (.daemon error)⟩] } := by
  change world.call.bind EvalCall.reader = none at idle
  unfold books
  rw [idle]
  rfl

theorem books_reaping {world : EvalWorld} (idle : world.books.reader = none) (session code : String)
    (expired : List String) :
    ({ world with call := some ⟨session, code, .reaping expired⟩ } : EvalWorld).books =
      world.books := by
  change world.call.bind EvalCall.reader = none at idle
  unfold books
  rw [idle]
  rfl

theorem sound_exec {world : EvalWorld} (sound : world.books.Sound)
    (idle : world.books.reader = none) (gate : CapabilityGate) (request : EvalRequest)
    (fresh : String) :
    (world.exec gate request fresh).books.Sound ∧
      Books.Moves world.books (world.exec gate request fresh).books := by
  rw [exec.eq_def]
  split
  · rw [books_fail idle]
    exact sound.fail _
  · split
    · rw [books_fail idle]
      exact sound.fail _
    · dsimp only
      rw [books_reaping idle]
      exact ⟨sound, .refl _⟩

/-- A line is written to the runtime, or there is none, or it is dead. -/
theorem sendRequest_cases (inner : EngineInner) (process : Nat) (attempt : Attempt)
    (command : EvalCommand) :
    (∃ error, inner.runtime = none ∧
        sendRequest inner process attempt command = (.error error, inner)) ∨
      ∃ target, Books.Target inner.runtime process target ∧
        ((∃ written, target.write command = some written ∧
            sendRequest inner process attempt command =
              (.ok (), { inner with runtime := some written })) ∨
          ∃ error, target.alive = false ∧
            sendRequest inner process attempt command =
              (.error error, { inner with runtime := some target })) := by
  have reaches : ∀ target : JsRuntime, inner.runtime.elim
      (attempt.spawn.map (JsRuntime.spawned process)) .ok = .ok target →
      (∃ written, target.write command = some written ∧
          sendRequest inner process attempt command =
            (.ok (), { inner with runtime := some written })) ∨
        ∃ error, target.alive = false ∧
          sendRequest inner process attempt command =
            (.error error, { inner with runtime := some target }) := by
    intro target reached
    cases done : target.write command with
    | some written =>
        refine .inl ⟨written, rfl, ?_⟩
        rw [sendRequest, reached]
        dsimp only
        rw [done]
    | none =>
        have dead : target.alive = false := by
          rw [JsRuntime.write] at done
          split at done
          · cases done
          · rename_i dead
            exact Bool.eq_false_of_not_eq_true dead
        refine .inr ⟨.protocol ("eval runtime stdin: " ++ attempt.detail), dead, ?_⟩
        rw [sendRequest, reached]
        dsimp only
        rw [done]
  cases held : inner.runtime with
  | some runtime =>
      refine .inr ⟨runtime, .inl rfl, reaches runtime ?_⟩
      rw [held]
      rfl
  | none =>
      cases spawn : attempt.spawn with
      | error error =>
          refine .inl ⟨error, rfl, ?_⟩
          rw [sendRequest, held, spawn]
          rfl
      | ok alive =>
          refine .inr ⟨.spawned process alive, .inr ⟨rfl, alive, rfl⟩, reaches _ ?_⟩
          rw [held, spawn]
          rfl

theorem books_reap {world : EvalWorld} (idle : world.books.reader = none) {call : EvalCall}
    {rest : List String} {session : String} {attempt : Attempt} {outcome : Except DaemonError Unit}
    {sent : EngineInner}
    (sends : sendRequest { world.inner with
        sessions := world.inner.sessions.erase session
        pending := world.inner.pending.erase session } world.nextProcess attempt
      (.destroy attempt.id session) = (outcome, sent)) :
    (world.reap call rest session attempt).books =
      { world.books with
        runtime := sent.runtime, sessions := sent.sessions, pending := sent.pending
        nextProcess := world.books.nextProcess + 1 } := by
  change world.call.bind EvalCall.reader = none at idle
  rw [reap, sends, books, books]
  rw [idle]
  rfl

/-- A session that idled too long is dropped. -/
theorem sound_reap {world : EvalWorld} (sound : world.books.Sound)
    (idle : world.books.reader = none) (call : EvalCall) (rest : List String) (session : String)
    (attempt : Attempt) :
    (world.reap call rest session attempt).books.Sound ∧
      Books.Moves world.books (world.reap call rest session attempt).books := by
  rcases sendRequest_cases { world.inner with
      sessions := world.inner.sessions.erase session
      pending := world.inner.pending.erase session } world.nextProcess attempt
      (.destroy attempt.id session) with
    ⟨error, missing, sends⟩ | ⟨target, ensures, ⟨written, done, sends⟩ | ⟨error, dead, sends⟩⟩
  · have absent : world.inner.sessions.lookup session = none ∧
        world.inner.pending.lookup session = none := sound.absent missing session
    have same : (world.reap call rest session attempt).books =
        { world.books with nextProcess := world.books.nextProcess + 1 } := by
      rw [books_reap idle sends]
      dsimp only
      rw [Books.erase_absent absent.1, Books.erase_absent absent.2]
      rfl
    rw [same]
    exact sound.number
  · rw [books_reap idle sends]
    refine Books.follow (sound.ensure ensures) fun ensured => ?_
    exact ensured.forget rfl idle (Books.drops_write (ensured.runtime target rfl).1 done)
  · rw [books_reap idle sends]
    refine Books.follow (sound.ensure ensures) fun ensured => ?_
    exact ensured.forget rfl idle (Books.drops_dead (ensured.runtime target rfl).1 dead session)

/-- The request of a call is written. -/
theorem sound_send {world : EvalWorld} (sound : world.books.Sound)
    (idle : world.books.reader = none) (call : EvalCall) (attempt : Attempt) :
    (world.send call attempt).books.Sound ∧
      Books.Moves world.books (world.send call attempt).books := by
  rcases sendRequest_cases world.inner world.nextProcess attempt
      (.exec attempt.id call.session call.code) with
    ⟨error, missing, sends⟩ | ⟨target, ensures, ⟨written, done, sends⟩ | ⟨error, dead, sends⟩⟩
  · rw [send, sends]
    dsimp only
    rw [books_fail]
    · exact Books.follow sound.number fun numbered => numbered.fail error
    · exact idle
  · rw [send, sends]
    dsimp only
    exact Books.follow (sound.ensure ensures) fun ensured => ensured.enter rfl idle done
  · rw [send, sends]
    dsimp only
    rw [books_fail]
    · exact Books.follow (sound.ensure ensures) fun ensured => ensured.fail error
    · exact idle

/-- A line that ends a call is read, or the end of another request. -/
theorem sound_end {world : EvalWorld} (sound : world.books.Sound) {call : EvalCall}
    {requestId : String} {deadline : Nat} {output : PendingOut}
    (reads : world.books.reader = some (call.session, output)) (origin : Option Context)
    {message : Value}
    (kind : message.get "type" = some (.string "done") ∨ message.get "type" = some (.string "error")) :
    (world.receive call requestId deadline output origin message).books.Sound ∧
      Books.Moves world.books
        (world.receive call requestId deadline output origin message).books := by
  rcases world.receive_end call requestId deadline output origin kind with
    same | ⟨outcome, given, completes⟩
  · rw [same]
    exact ⟨sound, .refl _⟩
  · rw [completes]
    obtain ⟨runtime, entry, held, served, -⟩ := sound.served call.session (.inr ⟨output, reads⟩)
    have source : world.serving call.session = some (runtime.process, entry.context) := by
      change world.inner.runtime = some runtime at held
      rw [serving, held, Option.bind_some, served]
      rfl
    exact sound.complete held reads served source given world.now

/-- A console line is read that is not stale. -/
theorem sound_console {world : EvalWorld} (sound : world.books.Sound) {runtime : JsRuntime}
    (held : world.inner.runtime = some runtime) {call : EvalCall} {requestId : String}
    {deadline : Nat} {output : PendingOut} (reads : world.books.reader = some (call.session, output))
    {context : Nat} {id : Option String} {session text : String} {stream : Stream}
    (next : runtime.written[runtime.taken]? = some (.console context id session stream (some text)))
    (current : ¬world.MeetsStale) {message : Value}
    (value : (Frame.console context id session stream (some text)).value = some message)
    {taken : EvalWorld}
    (takes : taken = { world with inner := { world.inner with runtime := some runtime.taking } }) :
    (taken.receive call requestId deadline output (some (runtime.process, context)) message).books.Sound ∧
      Books.Moves world.books (taken.receive call requestId deadline output
        (some (runtime.process, context)) message).books := by
  have lively := (sound.runtime runtime held).1
  have tagged := JsSessions.getElem_of_prefix (JsRuntime.settled_formed lively).2
    (lively.tagged context id session stream (some text) (List.mem_of_getElem? next)).1
  rw [receive_console _ _ _ _ _ _ value]
  by_cases used : world.books.InUse session
  · have own : (runtime.settled.entries.lookup session).map JsEntry.context = some context := by
      by_contra other
      have line : runtime.nextConsole = some (session, context) := by
        rw [JsRuntime.nextConsole, next]
      exact current ⟨by rw [reads]; rfl, runtime, held, (session, context), line, used, other⟩
    obtain ⟨entry, served, serves⟩ := Option.map_eq_some_iff.mp own
    by_cases mine : session = call.session
    · rw [if_pos mine]
      subst takes mine
      exact sound.hear held next served serves reads
    · rw [if_neg mine]
      have lives : (world.inner.sessions.lookup session).isSome := by
        rcases used with lives | ⟨given, reading⟩
        · exact lives
        · cases reads.symm.trans reading
          exact absurd rfl mine
      subst takes
      rw [if_pos lives]
      refine sound.queue held next served serves ?_ lives
      intro given reading
      cases reads.symm.trans reading
      exact mine rfl
  · have apart : session ≠ call.session := by
      rintro rfl
      exact used (.inr ⟨output, reads⟩)
    have gone : ¬(world.inner.sessions.lookup session).isSome := fun lives => used (.inl lives)
    subst takes
    rw [if_neg apart, if_neg gone]
    refine sound.pass held next ?_
    intro other entry uses serving kind
    apply Books.consoleText_apart
    left
    rintro rfl
    exact used (sound.unique held serving tagged ▸ uses)

/-- The reader of a call takes a line, or finds the end. -/
theorem sound_read {world : EvalWorld} (sound : world.books.Sound) {call : EvalCall}
    {requestId : String} {deadline : Nat} {output : PendingOut}
    (reads : world.books.reader = some (call.session, output)) (current : ¬world.MeetsStale) :
    (world.read call requestId deadline output).books.Sound ∧
      Books.Moves world.books (world.read call requestId deadline output).books := by
  rw [read]
  cases held : world.inner.runtime with
  | none => exact ⟨sound, .refl _⟩
  | some runtime =>
      have lively := (sound.runtime runtime held).1
      dsimp only
      cases next : runtime.written[runtime.taken]? with
      | none =>
          dsimp only
          split
          · exact ⟨sound, .refl _⟩
          · exact sound_kill sound _
      | some frame =>
          let taken : EvalWorld := { world with inner := { world.inner with
            runtime := some runtime.taking } }
          have passes : (∀ context stream, frame.consoleText context stream = none) →
              taken.books.Sound ∧ Books.Moves world.books taken.books :=
            fun silent => sound.pass held next fun _ entry _ _ stream => silent entry.context stream
          cases frame with
          | console context id session stream text =>
              have unicode := (lively.tagged context id session stream text
                (List.mem_of_getElem? next)).2
              obtain ⟨text, rfl⟩ := Option.isSome_iff_exists.mp unicode
              exact sound_console sound held reads next current rfl rfl
          | done id session result created =>
              dsimp only
              cases value : (Frame.done id session result created).value with
              | none => exact passes fun _ _ => rfl
              | some message =>
                  exact Books.follow (passes fun _ _ => rfl) fun ready =>
                    sound_end ready reads none (.inl (type_done value))
          | error id session text created =>
              dsimp only
              cases value : (Frame.error id session text created).value with
              | none => exact passes fun _ _ => rfl
              | some message =>
                  exact Books.follow (passes fun _ _ => rfl) fun ready =>
                    sound_end ready reads none (.inr (type_error value))

/-- Every step that is permitted keeps the books in order. -/
theorem sound_step {world : EvalWorld} (sound : world.books.Sound) {event : EvalEvent}
    (permitted : world.Permits event) :
    (world.step event).books.Sound ∧ Books.Moves world.books (world.step event).books := by
  have same : world.books.Sound ∧ Books.Moves world.books world.books := ⟨sound, .refl _⟩
  cases event with
  | passes elapsed => exact same
  | runtime event => exact sound_runtime sound permitted
  | exec gate request fresh =>
      rw [step.eq_def]
      dsimp only
      split
      · rename_i idle
        refine sound_exec sound ?_ gate request fresh
        rw [books, idle]
        rfl
      · exact same
  | reap session attempt =>
      rw [step.eq_def]
      dsimp only
      split
      · rename_i own code expired reaping
        split
        · refine sound_reap sound ?_ _ _ session attempt
          rw [books, reaping]
          rfl
        · exact same
      · exact same
  | send attempt =>
      rw [step.eq_def]
      dsimp only
      split
      · rename_i own code reaping
        split
        · refine sound_send sound ?_ _ attempt
          rw [books, reaping]
          rfl
        · exact same
      · exact same
  | read =>
      rw [step.eq_def]
      dsimp only
      split
      · rename_i own code requestId deadline output reading
        refine sound_read sound ?_ permitted
        rw [books, reading]
        rfl
      · exact same
  | readError detail =>
      rw [step.eq_def]
      dsimp only
      split
      · exact sound_kill sound _
      · exact same
  | lapse =>
      rw [step.eq_def]
      dsimp only
      split
      · split
        · exact sound_kill sound _
        · exact same
      · exact same
  | deadline =>
      rw [step.eq_def]
      dsimp only
      split
      · split
        · exact sound_kill sound _
        · exact same
      · exact same

/-- When a call comes back from a runtime that goes on, nothing is held for its session. -/
def Flushed (world : EvalWorld) (event : EvalEvent) : Prop :=
  ∀ session output, world.books.reader = some (session, output) →
    (world.step event).books.reader = none → (world.step event).inner.runtime.isSome →
    (world.step event).books.held session = .empty

/-- Console texts go to the calls of the session that has their context, once and in order. -/
structure Routed (world : EvalWorld) : Prop where
  texts : ∀ answer ∈ world.answers, ∀ stream,
    (wholeText (answer.output.of stream).frames).utf8ByteSize < maxCapturedChars →
    (answer.output.of stream).text = wholeText (answer.output.of stream).frames
  sources : ∀ answer ∈ world.answers, ∀ stream, ∀ frame ∈ (answer.output.of stream).frames,
    frame.context.isSome ∧ frame.context = answer.context
  conserved : ∀ session, world.books.InUse session → ∃ runtime entry,
    world.inner.runtime = some runtime ∧
    runtime.settled.entries.lookup session = some entry ∧ ∀ stream,
    consoleTexts entry.context stream runtime.written =
      (deliveredTexts world.answers (runtime.process, entry.context) stream ++
        ((world.books.held session).of stream).frames.map Captured.text).map some ++
      consoleTexts entry.context stream (runtime.written.drop runtime.taken)

/-- A context that was dropped stays so, and none of its texts is delivered any more. -/
def Dropped (before after : EvalWorld) (context : Context) : Prop :=
  ¬after.books.Live context ∧ ∀ stream,
    deliveredTexts after.answers context stream = deliveredTexts before.answers context stream

structure ConsoleRouted (events : List EvalEvent) : Prop where
  routed : ∀ front rest, events = front ++ rest → Routed (run step start front)
  flushed : ∀ front event rest, events = front ++ event :: rest →
    Flushed (run step start front) event
  dropped : ∀ front middle late rest, events = front ++ middle ++ late ++ rest → ∀ context,
    (run step start front).books.Live context →
    ¬(run step start (front ++ middle)).books.Live context →
    Dropped (run step start (front ++ middle)) (run step start (front ++ middle ++ late)) context

theorem routed_of_sound {world : EvalWorld} (sound : world.books.Sound) : Routed world where
  texts answer member stream below :=
    ((sound.answered answer member).faithful stream).trans (cappedText_below below)
  sources answer member := (sound.answered answer member).sources
  conserved := by
    intro session used
    obtain ⟨runtime, entry, held, served, account⟩ := sound.served session used
    refine ⟨runtime, entry, held, served, ?_⟩
    intro stream
    calc consoleTexts entry.context stream runtime.written
      _ = consoleTexts entry.context stream
            (runtime.written.take runtime.taken ++ runtime.written.drop runtime.taken) := by
          rw [List.take_append_drop]
      _ = consoleTexts entry.context stream (runtime.written.take runtime.taken) ++
            consoleTexts entry.context stream (runtime.written.drop runtime.taken) :=
          consoleTexts_append _ _ _ _
      _ = _ := congrArg (· ++ _) (account.conserved stream)

theorem known_of_live {books : Books} (sound : books.Sound) {context : Context}
    (live : books.Live context) : books.Known context := by
  obtain ⟨runtime, session, entry, held, served, rfl, -⟩ := live
  exact sound.known held served

theorem run_sound (events : List EvalEvent)
    (permitted : Throughout (fun before event => Permits (run step start before) event) events) :
    (run step start events).books.Sound :=
  invariant step start _ (fun _ world => world.books.Sound) Books.start_sound
    (fun _ _ sound permits => (sound_step sound permits).1) events permitted

theorem run_moves (front rest : List EvalEvent)
    (permitted : Throughout (fun before event => Permits (run step start before) event)
      (front ++ rest)) :
    Books.Moves (run step start front).books (run step start (front ++ rest)).books := by
  induction rest using List.reverseRecOn with
  | nil =>
      rw [List.append_nil]
      exact .refl _
  | append_singleton rest event ih =>
      rw [← List.append_assoc] at permitted ⊢
      have sound := run_sound (front ++ rest) permitted.front
      rw [run_concat]
      exact (ih permitted.front).trans (sound_step sound permitted.last).2

/-- A line of a console does not end a call. -/
theorem route_reader {world : EvalWorld} (reading : world.books.reader ≠ none) (call : EvalCall)
    (requestId : String) (deadline : Nat) (output : PendingOut) (origin : Option Context)
    (stream : Stream) (message : Value) :
    (world.route call requestId deadline output origin stream message).books.reader ≠ none := by
  rw [route]
  dsimp only
  split
  · intro same
    cases same
  · split
    · split
      · exact reading
      · exact reading
    · exact reading

/-- A call comes back without a change of what is held for the sessions. -/
theorem receive_pending {world : EvalWorld} (reading : world.books.reader ≠ none) (call : EvalCall)
    (requestId : String) (deadline : Nat) (output : PendingOut) (origin : Option Context)
    (message : Value)
    (ends : (world.receive call requestId deadline output origin message).books.reader = none) :
    (world.receive call requestId deadline output origin message).inner.pending =
      world.inner.pending := by
  revert ends
  rw [receive.eq_def]
  dsimp only
  split
  · exact fun ends => absurd ends (route_reader reading _ _ _ _ _ _ _)
  · exact fun ends => absurd ends (route_reader reading _ _ _ _ _ _ _)
  · split
    · exact fun _ => rfl
    · exact fun _ => rfl
  · split
    · exact fun _ => rfl
    · exact fun _ => rfl
  · exact fun _ => rfl

theorem read_pending {world : EvalWorld} (reading : world.books.reader ≠ none) (call : EvalCall)
    (requestId : String) (deadline : Nat) (output : PendingOut)
    (ends : (world.read call requestId deadline output).books.reader = none)
    (lives : (world.read call requestId deadline output).inner.runtime.isSome) :
    (world.read call requestId deadline output).inner.pending = world.inner.pending := by
  revert ends lives
  rw [read]
  split
  · exact fun _ _ => rfl
  · rename_i runtime held
    split
    · dsimp only
      split
      · intro ends _
        refine receive_pending ?_ _ _ _ _ _ _ ends
        exact reading
      · exact fun _ _ => rfl
    · split
      · exact fun _ _ => rfl
      · intro _ lives
        cases lives

theorem reading_of_reader {world : EvalWorld} {session : String} {output : PendingOut}
    (reads : world.books.reader = some (session, output)) : ∃ code requestId deadline,
    world.call = some ⟨session, code, .reading requestId deadline output⟩ := by
  change world.call.bind EvalCall.reader = some (session, output) at reads
  obtain ⟨⟨own, code, stage⟩, called, read⟩ := Option.bind_eq_some_iff.mp reads
  cases stage with
  | reaping expired => cases read
  | reading requestId deadline given =>
      cases read
      exact ⟨code, requestId, deadline, called⟩

theorem step_flushed {world : EvalWorld} (sound : world.books.Sound) (event : EvalEvent) :
    Flushed world event := by
  intro session output reads ends lives
  have pending : (world.step event).inner.pending = world.inner.pending := by
    obtain ⟨code, requestId, deadline, called⟩ := reading_of_reader reads
    have reading : world.books.reader ≠ none := by
      rw [reads]
      exact nofun
    cases event with
    | passes elapsed => rfl
    | runtime event => rfl
    | read =>
        rw [step.eq_def, called] at ends lives ⊢
        exact read_pending reading _ _ _ _ ends lives
    | exec gate request fresh =>
        rw [step.eq_def, called]
    | reap dropped attempt =>
        rw [step.eq_def, called]
    | send attempt =>
        rw [step.eq_def, called]
    | readError detail =>
        rw [step.eq_def, called] at lives
        cases lives
    | lapse =>
        revert lives
        rw [step.eq_def, called]
        dsimp only
        split
        · exact nofun
        · exact fun _ => rfl
    | deadline =>
        revert lives
        rw [step.eq_def, called]
        dsimp only
        split
        · exact nofun
        · exact fun _ => rfl
  rw [Books.held_pending (by intro given; rw [ends]; exact nofun)]
  show ((world.step event).inner.pending.lookup session).getD .empty = .empty
  rw [pending]
  exact congrArg (Option.getD · _) (sound.clear session output reads)

theorem consoleRouted (events : List EvalEvent)
    (permitted : Throughout (fun before event => Permits (run step start before) event) events) :
    ConsoleRouted events where
  routed := by
    rintro front rest rfl
    exact routed_of_sound (run_sound front permitted.initial)
  flushed := by
    rintro front event rest rfl
    exact step_flushed (run_sound front permitted.initial) event
  dropped := by
    rintro front middle late rest rfl context live gone
    have sound := run_sound front permitted.initial.initial.initial
    have early := run_moves front middle permitted.initial.initial
    have moves := run_moves (front ++ middle) late permitted.initial
    have known := early.known context (known_of_live sound live)
    exact ⟨fun again => gone (moves.lives context known again), moves.delivers context known gone⟩

def shellGate : CapabilityGate := .ofScopes ⟨["desktop.shell.execute"], []⟩

/-- The first call of the session, up to its answer, and a line that its context writes later. -/
def opens : List EvalEvent :=
  [.exec shellGate ⟨"1", some "a"⟩ "f", .send ⟨"1", .ok true, ""⟩, .runtime .command,
    .runtime (.settle ⟨"1", "a", true⟩ (.value (some .null))), .read,
    .runtime (.console 0 .stdout (some "late"))]

/-- The line is read in a call of another session, and the first session is called again. -/
def stragglers : List EvalEvent := opens ++
  [.exec shellGate ⟨"1", some "b"⟩ "f", .send ⟨"2", .ok true, ""⟩, .read,
    .runtime .command, .runtime (.settle ⟨"2", "b", true⟩ (.value (some .null))), .read,
    .exec shellGate ⟨"2", some "a"⟩ "f", .send ⟨"3", .ok true, ""⟩, .runtime .command,
    .runtime (.settle ⟨"3", "a", false⟩ (.value (some .null))), .read]

/-- The session idles until it is dropped, and the line is read in the first call of the next
session of that name. -/
def ghost : List EvalEvent := opens ++
  [.passes (sessionTtl + 1), .exec shellGate ⟨"2", some "a"⟩ "f", .reap "a" ⟨"2", .ok true, ""⟩,
    .send ⟨"3", .ok true, ""⟩, .read, .runtime .command, .runtime .command,
    .runtime (.settle ⟨"3", "a", true⟩ (.value (some .null))), .read, .read]

/-- The contexts of the calls, each with the contexts of what it was given. -/
def routes (world : EvalWorld) : List (Option Context × Option Context) :=
  world.answers.flatMap fun answer =>
    answer.output.stdout.frames.map fun frame => (answer.context, frame.context)

theorem consoleRouted_stragglers :
    ConsoleRouted stragglers ∧
      routes (run step start stragglers) = [(some (0, 0), some (0, 0))] := by
  constructor
  · apply consoleRouted
    refine .cons trivial (.cons trivial (.cons trivial (.cons trivial (.cons ?_ (.cons rfl
      (.cons trivial (.cons trivial (.cons ?_ (.cons trivial (.cons trivial (.cons ?_
      (.cons trivial (.cons trivial (.cons trivial (.cons trivial (.cons ?_ (.nil _)))))))))))))))))
    · show ¬MeetsStale _
      decide
    · show ¬MeetsStale _
      decide
    · show ¬MeetsStale _
      decide
    · show ¬MeetsStale _
      decide
  · decide

/-- What a session wrote before it was dropped goes to the next session of its name. -/
theorem consoleRouted_ghost : ¬ConsoleRouted ghost := by
  intro routed
  have given : (some (0, 1), some (0, 0)) ∈ routes (run step start ghost) := by decide
  obtain ⟨answer, inside, given⟩ := List.mem_flatMap.mp given
  obtain ⟨frame, member, same⟩ := List.mem_map.mp given
  have sources := ((routed.routed ghost [] (List.append_nil _).symm).sources answer inside .stdout
    frame member).2
  obtain ⟨first, second⟩ := Prod.mk.inj same
  have equal : some (0, 1) = some (0, 0) := first.symm.trans (sources.symm.trans second)
  cases equal

end EvalWorld

end EvalEngine

end Daemon
