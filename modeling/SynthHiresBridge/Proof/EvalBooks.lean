import SynthHiresBridge.Daemon.EvalSession
import SynthHiresBridge.Proof.EvalRuntime

namespace Daemon

namespace EvalEngine

/-- A text is appended to a buffer that has no limit. -/
def appendLine (buffer : String) (frame : Captured) : String := buffer ++ frame.text ++ "\n"

def wholeText (frames : List Captured) : String := frames.foldl appendLine ""

def cappedText (frames : List Captured) : String :=
  frames.foldl (fun buffer frame => appendText buffer frame.text) ""

/-- Below the limit nothing is left out. -/
theorem cappedText_below {frames : List Captured}
    (below : (wholeText frames).utf8ByteSize < maxCapturedChars) :
    cappedText frames = wholeText frames := by
  induction frames using List.reverseRecOn with
  | nil => rfl
  | append_singleton frames last ih =>
      have whole : wholeText (frames ++ [last]) = wholeText frames ++ last.text ++ "\n" := by
        simp [wholeText, appendLine]
      have size : (wholeText frames).utf8ByteSize < maxCapturedChars := by
        rw [whole, String.utf8ByteSize_append, String.utf8ByteSize_append] at below
        omega
      have capped : cappedText (frames ++ [last]) = appendText (cappedText frames) last.text := by
        simp [cappedText]
      rw [capped, ih size, appendText, if_pos size, whole]

/-- The text of a capture is the text of its frames, up to the limit. -/
def Capture.Faithful (capture : Capture) : Prop := capture.text = cappedText capture.frames

def PendingOut.Faithful (output : PendingOut) : Prop := ∀ stream, (output.of stream).Faithful

theorem faithful_empty : PendingOut.empty.Faithful := by
  intro stream
  cases stream with
  | stdout => rfl
  | stderr => rfl

theorem frames_empty (stream : Stream) : (PendingOut.empty.of stream).frames = [] := by
  cases stream with
  | stdout => rfl
  | stderr => rfl

/-- A text that is appended to one stream is the last frame there. -/
theorem of_append (output : PendingOut) (stream other : Stream) (text : String)
    (context : Option Context) :
    (output.append stream (some (.string text)) context).of other =
      if other = stream then
        ⟨appendText (output.of stream).text text, (output.of stream).frames ++ [⟨context, text⟩]⟩
      else output.of other := by
  cases stream with
  | stdout => cases other with
    | stdout => rfl
    | stderr => rfl
  | stderr => cases other with
    | stdout => rfl
    | stderr => rfl

theorem PendingOut.Faithful.append {output : PendingOut} (faithful : output.Faithful)
    (stream : Stream) (text : String) (context : Option Context) :
    (output.append stream (some (.string text)) context).Faithful := by
  intro other
  rw [of_append]
  split
  · have last : cappedText ((output.of stream).frames ++ [⟨context, text⟩]) =
        appendText (cappedText (output.of stream).frames) text := by
      simp [cappedText]
    rw [Capture.Faithful, last, ← faithful stream]
  · exact faithful other

/-- The text of a console line of a context. -/
def Frame.consoleText (context : Nat) (stream : Stream) : Frame → Option (Option String)
  | .console source _ _ kind text => if source = context ∧ kind = stream then some text else none
  | _ => none

/-- What a context writes to a stream. -/
def consoleTexts (context : Nat) (stream : Stream) (frames : List Frame) : List (Option String) :=
  frames.filterMap (Frame.consoleText context stream)

/-- What a capture has of a context. -/
def textsOf (context : Context) (capture : Capture) : List String :=
  (capture.frames.filter fun frame => frame.context = some context).map Captured.text

/-- What was delivered of a context, in the order of the answers. -/
def deliveredTexts (answers : List Answer) (context : Context) (stream : Stream) : List String :=
  answers.flatMap fun answer => textsOf context (answer.output.of stream)

theorem consoleTexts_append (context : Nat) (stream : Stream) (first second : List Frame) :
    consoleTexts context stream (first ++ second) =
      consoleTexts context stream first ++ consoleTexts context stream second :=
  List.filterMap_append

theorem deliveredTexts_concat (answers : List Answer) (answer : Answer) (context : Context)
    (stream : Stream) : deliveredTexts (answers ++ [answer]) context stream =
      deliveredTexts answers context stream ++ textsOf context (answer.output.of stream) := by
  simp [deliveredTexts]

/-- A capture of one context has all its texts from there. -/
theorem textsOf_own {context : Context} {capture : Capture}
    (sources : ∀ frame ∈ capture.frames, frame.context = some context) :
    textsOf context capture = capture.frames.map Captured.text := by
  have all : capture.frames.filter (fun frame => frame.context = some context) = capture.frames :=
    List.filter_eq_self.mpr fun frame member => decide_eq_true (sources frame member)
  rw [textsOf, all]

theorem textsOf_other {context : Context} {capture : Capture}
    (sources : ∀ frame ∈ capture.frames, frame.context ≠ some context) :
    textsOf context capture = [] := by
  have none : capture.frames.filter (fun frame => frame.context = some context) = [] :=
    List.filter_eq_nil_iff.mpr fun frame member => by simpa using sources frame member
  rw [textsOf, none]
  rfl

/-- An answer that has nothing of a context. -/
theorem deliveredTexts_other (answers : List Answer) {answer : Answer} {context : Context}
    {stream : Stream}
    (sources : ∀ frame ∈ (answer.output.of stream).frames, frame.context ≠ some context) :
    deliveredTexts (answers ++ [answer]) context stream = deliveredTexts answers context stream := by
  rw [deliveredTexts_concat, textsOf_other sources, List.append_nil]

/-- The next line of a runtime is read. -/
def JsRuntime.taking (runtime : JsRuntime) : JsRuntime := { runtime with taken := runtime.taken + 1 }

theorem consoleTexts_taking {runtime : JsRuntime} {frame : Frame}
    (next : runtime.written[runtime.taken]? = some frame) (context : Nat) (stream : Stream) :
    consoleTexts context stream (runtime.taking.written.take runtime.taking.taken) =
      consoleTexts context stream (runtime.written.take runtime.taken) ++
        (frame.consoleText context stream).toList := by
  have longer : runtime.taking.written.take runtime.taking.taken =
      runtime.written.take runtime.taken ++ [frame] := by
    show runtime.written.take (runtime.taken + 1) = _
    rw [List.take_add_one, next]
    rfl
  rw [longer, consoleTexts_append]
  cases text : frame.consoleText context stream with
  | none => simp [consoleTexts, text]
  | some text => simp [consoleTexts, text]

theorem JsRuntime.Sound.taking {runtime : JsRuntime} (sound : runtime.Sound) {frame : Frame}
    (next : runtime.written[runtime.taken]? = some frame) : runtime.taking.Sound :=
  ⟨sound.formed, (List.getElem?_eq_some_iff.mp next).1, sound.tagged⟩

/-- The session and the output of a call that reads. -/
def EvalCall.reader (call : EvalCall) : Option (String × PendingOut) :=
  match call.stage with
  | .reading _ _ output => some (call.session, output)
  | .reaping _ => none

/-- The books of an engine say where console lines are, and leave out the rest of a call. -/
structure Books where
  runtime : Option JsRuntime
  sessions : Table String Nat
  pending : Table String PendingOut
  reader : Option (String × PendingOut)
  answers : List Answer
  nextProcess : Nat

def EvalWorld.books (world : EvalWorld) : Books :=
  ⟨world.inner.runtime, world.inner.sessions, world.inner.pending, world.call.bind EvalCall.reader,
    world.answers, world.nextProcess⟩

namespace Books

/-- A session is in use from the request of its first call until it is dropped. -/
def InUse (books : Books) (session : String) : Prop :=
  (books.sessions.lookup session).isSome ∨ ∃ output, books.reader = some (session, output)

/-- The output that was read for a session and not delivered. -/
def held (books : Books) (session : String) : PendingOut :=
  let queued := (books.pending.lookup session).getD .empty
  match books.reader with
  | some reader => if reader.1 = session then reader.2 else queued
  | none => queued

theorem held_reader {books : Books} {session : String} {output : PendingOut}
    (reads : books.reader = some (session, output)) : books.held session = output := by
  rw [held, reads]
  exact if_pos rfl

theorem held_pending {books : Books} {session : String}
    (other : ∀ output, books.reader ≠ some (session, output)) :
    books.held session = (books.pending.lookup session).getD .empty := by
  cases reads : books.reader with
  | none => rw [held, reads]
  | some reader =>
      rw [held, reads]
      apply if_neg
      rintro rfl
      exact other reader.2 reads

/-- What is held for a session that no call reads for. -/
theorem held_congr {before after : Books} {session : String}
    (unread : ∀ output, before.reader ≠ some (session, output))
    (still : ∀ output, after.reader ≠ some (session, output))
    (pending : after.pending.lookup session = before.pending.lookup session) :
    after.held session = before.held session := by
  rw [held_pending unread, held_pending still, pending]

/-- A context is live while its session is in use. -/
def Live (books : Books) (context : Context) : Prop :=
  ∃ runtime session entry, books.runtime = some runtime ∧
    runtime.settled.entries.lookup session = some entry ∧
    context = (runtime.process, entry.context) ∧ books.InUse session

/-- A context that some process may have had. -/
def Known (books : Books) (context : Context) : Prop :=
  context.1 < books.nextProcess ∧ ∀ runtime, books.runtime = some runtime →
    runtime.process = context.1 → context.2 < runtime.settled.contexts.length

/-- What was read of a context was delivered in calls of its session, or is held for one. -/
structure Account (books : Books) (runtime : JsRuntime) (session : String) (context : Nat) : Prop where
  sources : ∀ stream, ∀ frame ∈ ((books.held session).of stream).frames,
    frame.context = some (runtime.process, context)
  conserved : ∀ stream, consoleTexts context stream (runtime.written.take runtime.taken) =
    (deliveredTexts books.answers (runtime.process, context) stream ++
      ((books.held session).of stream).frames.map Captured.text).map some

/-- An account depends on what was read, what is held and what was delivered. -/
theorem Account.transfer {before after : Books} {runtime changed : JsRuntime} {session : String}
    {context : Nat} (account : before.Account runtime session context)
    (process : changed.process = runtime.process)
    (read : changed.written.take changed.taken = runtime.written.take runtime.taken)
    (same : after.held session = before.held session)
    (delivered : ∀ stream, deliveredTexts after.answers (runtime.process, context) stream =
      deliveredTexts before.answers (runtime.process, context) stream) :
    after.Account changed session context := by
  constructor
  · rw [same, process]
    exact account.sources
  · intro stream
    rw [same, process, read, delivered]
    exact account.conserved stream

/-- An answer has the text of its frames, and these come from the context that served it. -/
structure Answered (books : Books) (answer : Answer) : Prop where
  faithful : answer.output.Faithful
  sources : ∀ stream, ∀ frame ∈ (answer.output.of stream).frames,
    frame.context.isSome ∧ frame.context = answer.context
  known : ∀ context, answer.context = some context → books.Known context

structure Sound (books : Books) : Prop where
  answered : ∀ answer ∈ books.answers, books.Answered answer
  faithful : ∀ session, (books.held session).Faithful
  runtime : ∀ runtime, books.runtime = some runtime →
    runtime.Sound ∧ runtime.process < books.nextProcess
  registered : ∀ runtime, books.runtime = some runtime → runtime.alive = true → ∀ session,
    (runtime.settled.entries.lookup session).isSome → books.InUse session
  served : ∀ session, books.InUse session → ∃ runtime entry, books.runtime = some runtime ∧
    runtime.settled.entries.lookup session = some entry ∧
    books.Account runtime session entry.context
  owned : ∀ session, (books.pending.lookup session).isSome → (books.sessions.lookup session).isSome
  clear : ∀ session output, books.reader = some (session, output) →
    books.pending.lookup session = none

/-- A context that was dropped is not live again, and nothing of it is delivered. -/
structure Moves (before after : Books) : Prop where
  known : ∀ context, before.Known context → after.Known context
  lives : ∀ context, before.Known context → after.Live context → before.Live context
  delivers : ∀ context, before.Known context → ¬before.Live context → ∀ stream,
    deliveredTexts after.answers context stream = deliveredTexts before.answers context stream

theorem Moves.refl (books : Books) : Moves books books :=
  ⟨fun _ known => known, fun _ _ live => live, fun _ _ _ _ => rfl⟩

theorem Moves.trans {first second third : Books} (before : Moves first second)
    (after : Moves second third) : Moves first third where
  known context known := after.known context (before.known context known)
  lives context known live :=
    before.lives context known (after.lives context (before.known context known) live)
  delivers context known gone stream :=
    (after.delivers context (before.known context known)
      (fun live => gone (before.lives context known live)) stream).trans
      (before.delivers context known gone stream)

theorem follow {first second third : Books} (before : second.Sound ∧ Moves first second)
    (after : second.Sound → third.Sound ∧ Moves second third) : third.Sound ∧ Moves first third :=
  ⟨(after before.1).1, before.2.trans (after before.1).2⟩

theorem start_sound : Sound EvalWorld.start.books := by
  have free : ∀ session, ¬EvalWorld.start.books.InUse session := by
    rintro session (lives | ⟨output, reads⟩)
    · cases lives
    · cases reads
  refine ⟨?_, fun _ => faithful_empty, ?_, ?_, fun session used => absurd used (free session), ?_, ?_⟩
  · intro answer member
    cases member
  · intro runtime held
    cases held
  · intro runtime held
    cases held
  · intro session held
    cases held
  · intro session output reads
    cases reads

theorem Sound.tagged {books : Books} (sound : Sound books) {runtime : JsRuntime} {session : String}
    {entry : JsEntry} (held : books.runtime = some runtime)
    (served : runtime.settled.entries.lookup session = some entry) :
    runtime.settled.contexts[entry.context]? = some session :=
  (JsRuntime.settled_formed (sound.runtime runtime held).1).1 session entry served

/-- A session in use is served by one context, and the context by one session. -/
theorem Sound.unique {books : Books} (sound : Sound books) {runtime : JsRuntime} {session other : String}
    {entry : JsEntry} (held : books.runtime = some runtime)
    (served : runtime.settled.entries.lookup session = some entry)
    (tagged : runtime.settled.contexts[entry.context]? = some other) : session = other :=
  Option.some.inj ((sound.tagged held served).symm.trans tagged)

theorem Sound.account {books : Books} (sound : Sound books) {runtime : JsRuntime} {session : String}
    {entry : JsEntry} (held : books.runtime = some runtime)
    (served : runtime.settled.entries.lookup session = some entry) (used : books.InUse session) :
    books.Account runtime session entry.context := by
  obtain ⟨other, found, same, serves, account⟩ := sound.served session used
  cases held.symm.trans same
  cases served.symm.trans serves
  exact account

/-- The context of a session is known. -/
theorem Sound.known {books : Books} (sound : Sound books) {runtime : JsRuntime} {session : String}
    {entry : JsEntry} (held : books.runtime = some runtime)
    (served : runtime.settled.entries.lookup session = some entry) :
    books.Known (runtime.process, entry.context) := by
  refine ⟨(sound.runtime runtime held).2, ?_⟩
  intro other same _
  cases held.symm.trans same
  exact (List.getElem?_eq_some_iff.mp (sound.tagged held served)).1

/-- The books of two states with the same sessions, where the runtime has gone on without being
read. -/
theorem Sound.advance {books : Books} (sound : Sound books) {runtime after : JsRuntime}
    (held : books.runtime = some runtime) (advances : JsRuntime.Advances runtime after)
    (lively : after.Sound) :
    Sound { books with runtime := some after } ∧ Moves books { books with runtime := some after } := by
  obtain ⟨rest, longer⟩ := advances.written
  have taken : after.written.take after.taken = runtime.written.take runtime.taken := by
    rw [advances.taken, ← longer]
    exact List.take_append_of_le_length (sound.runtime runtime held).1.taken
  have known : ∀ context, books.Known context →
      ({ books with runtime := some after } : Books).Known context := by
    rintro context ⟨below, inside⟩
    refine ⟨below, ?_⟩
    rintro other same own
    cases same
    rw [advances.settled]
    exact inside runtime held (advances.process.symm.trans own)
  refine ⟨⟨?_, sound.faithful, ?_, ?_, ?_, sound.owned, sound.clear⟩, known, ?_, fun _ _ _ _ => rfl⟩
  · intro answer member
    have answered := sound.answered answer member
    exact ⟨answered.faithful, answered.sources, fun context own => known context (answered.known context own)⟩
  · rintro other same
    cases same
    exact ⟨lively, advances.process ▸ (sound.runtime runtime held).2⟩
  · rintro other same alive session entered
    cases same
    rw [advances.settled] at entered
    exact sound.registered runtime held (advances.alive alive) session entered
  · intro session used
    obtain ⟨other, entry, same, served, account⟩ := sound.served session used
    cases held.symm.trans same
    refine ⟨after, entry, rfl, advances.settled ▸ served, ?_⟩
    exact account.transfer advances.process taken rfl fun _ => rfl
  · rintro context - ⟨other, session, entry, same, served, own, used⟩
    cases same
    exact ⟨runtime, session, entry, held, advances.settled ▸ served, advances.process ▸ own, used⟩

theorem Answered.mono {before after : Books} {answer : Answer} (answered : before.Answered answer)
    (known : ∀ context, before.Known context → after.Known context) : after.Answered answer :=
  ⟨answered.faithful, answered.sources, fun context own => known context (answered.known context own)⟩

/-- A call that comes back without output. -/
theorem Sound.fail {books : Books} (sound : Sound books) (error : DaemonError) :
    Sound { books with answers := books.answers ++ [⟨none, .error (.daemon error)⟩] } ∧
      Moves books { books with answers := books.answers ++ [⟨none, .error (.daemon error)⟩] } := by
  have delivered : ∀ context stream, deliveredTexts
      (books.answers ++ [⟨none, .error (.daemon error)⟩]) context stream =
      deliveredTexts books.answers context stream := by
    intro context stream
    apply deliveredTexts_other
    intro frame inside
    rw [Answer.output, frames_empty] at inside
    cases inside
  refine ⟨⟨?_, sound.faithful, sound.runtime, sound.registered, ?_, sound.owned, sound.clear⟩,
    fun _ known => known, fun _ _ live => live, fun context _ _ stream => delivered context stream⟩
  · intro answer member
    rcases List.mem_append.mp member with old | last
    · exact (sound.answered answer old).mono fun _ known => known
    · obtain rfl := List.mem_singleton.mp last
      refine ⟨faithful_empty, ?_, ?_⟩
      · intro stream frame inside
        rw [Answer.output, frames_empty] at inside
        cases inside
      · intro context own
        cases own
  · intro session used
    obtain ⟨runtime, entry, held, served, account⟩ := sound.served session used
    exact ⟨runtime, entry, held, served, account.transfer rfl rfl rfl (delivered _)⟩

/-- The runtime that is written to, held or started. -/
def Target (runtime : Option JsRuntime) (process : Nat) (target : JsRuntime) : Prop :=
  runtime = some target ∨ runtime = none ∧ ∃ alive, target = .spawned process alive

/-- A number of a process is left out. -/
theorem Sound.number {books : Books} (sound : Sound books) :
    Sound { books with nextProcess := books.nextProcess + 1 } ∧
      Moves books { books with nextProcess := books.nextProcess + 1 } := by
  have known : ∀ context, books.Known context →
      ({ books with nextProcess := books.nextProcess + 1 } : Books).Known context :=
    fun context known => ⟨Nat.lt_succ_of_lt known.1, known.2⟩
  refine ⟨⟨?_, sound.faithful, ?_, sound.registered, ?_, sound.owned, sound.clear⟩, known,
    fun _ _ live => live, fun _ _ _ _ => rfl⟩
  · intro answer member
    exact (sound.answered answer member).mono known
  · intro runtime held
    exact ⟨(sound.runtime runtime held).1, Nat.lt_succ_of_lt (sound.runtime runtime held).2⟩
  · intro session used
    obtain ⟨runtime, entry, held, served, account⟩ := sound.served session used
    exact ⟨runtime, entry, held, served, account.transfer rfl rfl rfl fun _ => rfl⟩

theorem Sound.ensure {books : Books} (sound : Sound books) {target : JsRuntime}
    (ensures : Target books.runtime books.nextProcess target) :
    Sound { books with runtime := some target, nextProcess := books.nextProcess + 1 } ∧
      Moves books { books with runtime := some target, nextProcess := books.nextProcess + 1 } := by
  rcases ensures with held | ⟨missing, alive, rfl⟩
  · rw [← held]
    exact sound.number
  · have free : ∀ session, ¬books.InUse session := by
      intro session used
      obtain ⟨other, -, same, -⟩ := sound.served session used
      rw [missing] at same
      cases same
    have known : ∀ context, books.Known context →
        ({ books with runtime := some (.spawned books.nextProcess alive),
                      nextProcess := books.nextProcess + 1 } : Books).Known context := by
      rintro context ⟨below, -⟩
      refine ⟨Nat.lt_succ_of_lt below, ?_⟩
      rintro other same own
      cases same
      exact absurd own.symm (Nat.ne_of_lt below)
    refine ⟨⟨?_, sound.faithful, ?_, ?_, fun session used => absurd used (free session), sound.owned,
      sound.clear⟩, known, ?_, fun _ _ _ _ => rfl⟩
    · intro answer member
      exact (sound.answered answer member).mono known
    · rintro other same
      cases same
      exact ⟨JsRuntime.sound_spawned _ alive, Nat.lt_succ_self _⟩
    · rintro other same - session entered
      cases same
      cases entered
    · rintro context - ⟨other, session, entry, same, served, own, used⟩
      exact absurd used (free session)

theorem lookup_erase_isSome {Row : Type} (table : Table String Row) {session other : String}
    (inside : ((table.erase session).lookup other).isSome) :
    other ≠ session ∧ (table.lookup other).isSome := by
  by_cases same : other = session
  · rw [same, AList.lookup_erase] at inside
    cases inside
  · rw [AList.lookup_erase_ne same] at inside
    exact ⟨same, inside⟩

/-- What a runtime does for other sessions when one is dropped. -/
structure Drops (runtime after : JsRuntime) (session : String) : Prop where
  sound : after.Sound
  process : after.process = runtime.process
  read : after.written.take after.taken = runtime.written.take runtime.taken
  alive : after.alive = true → runtime.alive = true ∧ after.settled.entries.lookup session = none
  contexts : after.settled.contexts = runtime.settled.contexts
  others : ∀ other, other ≠ session →
    after.settled.entries.lookup other = runtime.settled.entries.lookup other

/-- The command to destroy a session reaches a runtime that lives. -/
theorem drops_write {runtime written : JsRuntime} (sound : runtime.Sound) {session id : String}
    (done : runtime.write (.destroy id session) = some written) : Drops runtime written session := by
  obtain ⟨alive, rfl, settled⟩ := JsRuntime.settled_write done
  refine ⟨⟨sound.formed, sound.taken, sound.tagged⟩, rfl, rfl, fun _ => ⟨alive, ?_⟩, ?_, ?_⟩
  · rw [settled]
    exact AList.lookup_erase _ _
  · rw [settled]
    rfl
  · intro other apart
    rw [settled]
    exact AList.lookup_erase_ne apart

theorem drops_dead {runtime : JsRuntime} (sound : runtime.Sound) (dead : runtime.alive = false)
    (session : String) : Drops runtime runtime session := by
  refine ⟨sound, rfl, rfl, ?_, rfl, fun _ _ => rfl⟩
  intro alive
  rw [dead] at alive
  cases alive

theorem Sound.forget {books : Books} (sound : Sound books) {runtime after : JsRuntime}
    (held : books.runtime = some runtime) (idle : books.reader = none) {session : String}
    (drops : Drops runtime after session) :
    Sound { books with runtime := some after, sessions := books.sessions.erase session,
                       pending := books.pending.erase session } ∧
      Moves books { books with runtime := some after, sessions := books.sessions.erase session,
                               pending := books.pending.erase session } := by
  let dropped : Books := { books with
    runtime := some after, sessions := books.sessions.erase session,
    pending := books.pending.erase session }
  have unread : ∀ other output, books.reader ≠ some (other, output) := by
    intro other output reads
    rw [idle] at reads
    cases reads
  have inUse : ∀ other, dropped.InUse other → other ≠ session ∧ books.InUse other := by
    rintro other (lives | ⟨output, reads⟩)
    · obtain ⟨apart, before⟩ := lookup_erase_isSome books.sessions lives
      exact ⟨apart, .inl before⟩
    · exact absurd reads (unread other output)
  have queued : ∀ other, dropped.held other = (dropped.pending.lookup other).getD .empty :=
    fun other => held_pending (unread other)
  have same : ∀ other, other ≠ session → dropped.held other = books.held other :=
    fun other apart => held_congr (unread other) (unread other) (AList.lookup_erase_ne apart)
  have known : ∀ context, books.Known context → dropped.Known context := by
    rintro context ⟨below, inside⟩
    refine ⟨below, ?_⟩
    rintro other changed own
    cases changed
    rw [drops.contexts]
    exact inside runtime held (drops.process.symm.trans own)
  refine ⟨⟨?_, ?_, ?_, ?_, ?_, ?_, ?_⟩, known, ?_, fun _ _ _ _ => rfl⟩
  · intro answer member
    exact (sound.answered answer member).mono known
  · intro other
    by_cases own : other = session
    · have gone : dropped.pending.lookup session = none := AList.lookup_erase _ _
      rw [queued, own, gone]
      exact faithful_empty
    · rw [same other own]
      exact sound.faithful other
  · rintro other changed
    cases changed
    exact ⟨drops.sound, drops.process ▸ (sound.runtime runtime held).2⟩
  · rintro other changed alive named entered
    cases changed
    obtain ⟨before, gone⟩ := drops.alive alive
    have apart : named ≠ session := by
      rintro rfl
      rw [gone] at entered
      cases entered
    rw [drops.others named apart] at entered
    rcases sound.registered runtime held before named entered with lives | ⟨output, reads⟩
    · exact .inl ((AList.lookup_erase_ne apart).symm ▸ lives)
    · exact absurd reads (unread named output)
  · intro other used
    obtain ⟨apart, before⟩ := inUse other used
    obtain ⟨found, entry, serves, served, account⟩ := sound.served other before
    cases held.symm.trans serves
    refine ⟨after, entry, rfl, (drops.others other apart).trans served, ?_⟩
    exact account.transfer drops.process drops.read (same other apart) fun _ => rfl
  · intro other inside
    obtain ⟨apart, before⟩ := lookup_erase_isSome books.pending inside
    have lives := sound.owned other before
    exact (AList.lookup_erase_ne apart).symm ▸ lives
  · intro other output reads
    exact absurd reads (unread other output)
  · rintro context - ⟨other, named, entry, changed, served, own, used⟩
    cases changed
    obtain ⟨apart, before⟩ := inUse named used
    exact ⟨runtime, named, entry, held, (drops.others named apart).symm.trans served,
      drops.process ▸ own, before⟩

/-- A context that nobody knows has written nothing, and nothing of it was delivered. -/
theorem Sound.fresh {books : Books} (sound : Sound books) {runtime : JsRuntime}
    (held : books.runtime = some runtime) (stream : Stream) :
    consoleTexts runtime.settled.contexts.length stream (runtime.written.take runtime.taken) = [] ∧
      deliveredTexts books.answers (runtime.process, runtime.settled.contexts.length) stream = [] := by
  have lively := (sound.runtime runtime held).1
  constructor
  · apply List.filterMap_eq_nil_iff.mpr
    intro frame member
    cases frame with
    | done id session result created => rfl
    | error id session message created => rfl
    | console context id session kind text =>
        apply if_neg
        rintro ⟨rfl, -⟩
        have written := List.mem_of_mem_take member
        have inside := JsSessions.getElem_of_prefix (JsRuntime.settled_formed lively).2
          (lively.tagged _ id session kind text written).1
        exact absurd (List.getElem?_eq_some_iff.mp inside).1 (Nat.lt_irrefl _)
  · apply List.flatMap_eq_nil_iff.mpr
    intro answer member
    have answered := sound.answered answer member
    apply textsOf_other
    intro frame inside own
    have known := answered.known _ ((answered.sources stream frame inside).2.symm.trans own)
    exact absurd (known.2 runtime held rfl) (Nat.lt_irrefl _)

/-- A session of a runtime that lives goes on in its context, or begins in a new one. -/
theorem Sound.context {books : Books} (sound : Sound books) {runtime : JsRuntime}
    (held : books.runtime = some runtime) (alive : runtime.alive = true) (session : String) :
    (∃ entry, runtime.settled.entries.lookup session = some entry ∧
        entry.context = runtime.settled.contextFor session ∧ books.InUse session ∧
        books.Account runtime session (runtime.settled.contextFor session)) ∨
      runtime.settled.contextFor session = runtime.settled.contexts.length ∧
        ¬books.InUse session := by
  cases entered : runtime.settled.entries.lookup session with
  | some entry =>
      have context : runtime.settled.contextFor session = entry.context := by
        rw [JsSessions.contextFor, entered]
        rfl
      have used := sound.registered runtime held alive session (by rw [entered]; rfl)
      exact .inl ⟨entry, rfl, context.symm, used, context ▸ sound.account held entered used⟩
  | none =>
      refine .inr ⟨by rw [JsSessions.contextFor, entered]; rfl, ?_⟩
      intro used
      obtain ⟨other, found, same, served, -⟩ := sound.served session used
      cases held.symm.trans same
      rw [entered] at served
      cases served

/-- The context that a session runs its next request in has its account when the session is not yet
in use. -/
theorem Sound.opening {books : Books} (sound : Sound books) {runtime : JsRuntime}
    (held : books.runtime = some runtime) (alive : runtime.alive = true) (idle : books.reader = none)
    (session : String) : books.Account runtime session (runtime.settled.contextFor session) := by
  rcases sound.context held alive session with ⟨-, -, -, -, account⟩ | ⟨new, unused⟩
  · exact account
  · have empty : books.held session = .empty := by
      rw [held_pending (by rw [idle]; exact nofun)]
      cases queued : books.pending.lookup session with
      | none => rfl
      | some output => exact absurd (.inl (sound.owned session (by rw [queued]; rfl))) unused
    rw [new]
    constructor
    · intro stream frame inside
      rw [empty, frames_empty] at inside
      cases inside
    · intro stream
      obtain ⟨silent, undelivered⟩ := sound.fresh held stream
      rw [silent, undelivered, empty, frames_empty]
      rfl

/-- A request is written for a session, and its call begins to read with what was held for it. -/
theorem Sound.enter {books : Books} (sound : Sound books) {runtime written : JsRuntime}
    (held : books.runtime = some runtime) (idle : books.reader = none) {id session code : String}
    (done : runtime.write (.exec id session code) = some written) :
    Sound { books with runtime := some written, pending := books.pending.erase session,
                       reader := some (session, (books.pending.lookup session).getD .empty) } ∧
      Moves books { books with runtime := some written, pending := books.pending.erase session,
                               reader := some (session, (books.pending.lookup session).getD .empty) } := by
  obtain ⟨alive, shape, settled⟩ := JsRuntime.settled_write done
  have process : written.process = runtime.process := by rw [shape]
  have read : written.written.take written.taken = runtime.written.take runtime.taken := by rw [shape]
  have lively := (sound.runtime runtime held).1
  let opened : Books := { books with
    runtime := some written, pending := books.pending.erase session,
    reader := some (session, (books.pending.lookup session).getD .empty) }
  have unread : ∀ other output, books.reader ≠ some (other, output) := by
    intro other output reads
    rw [idle] at reads
    cases reads
  have entries : ∀ other, written.settled.entries.lookup other =
      if other = session then some ⟨runtime.settled.contextFor session, id⟩
      else runtime.settled.entries.lookup other := by
    intro other
    rw [settled]
    exact runtime.settled.lookup_exec id session other
  have own : opened.held session = books.held session := by
    rw [held_pending (unread session)]
    exact held_reader rfl
  have same : ∀ other, other ≠ session → opened.held other = books.held other := by
    intro other apart
    refine held_congr (unread other) ?_ (AList.lookup_erase_ne apart)
    intro output reads
    cases reads
    exact apart rfl
  have inUse : ∀ other, other ≠ session → opened.InUse other → books.InUse other := by
    rintro other apart (lives | ⟨output, reads⟩)
    · exact .inl lives
    · cases reads
      exact absurd rfl apart
  have known : ∀ context, books.Known context → opened.Known context := by
    rintro context ⟨below, inside⟩
    refine ⟨below, ?_⟩
    rintro other changed same
    cases changed
    have front := (runtime.settled.contexts_exec id session).length_le
    rw [settled]
    exact lt_of_lt_of_le (inside runtime held (process.symm.trans same)) front
  refine ⟨⟨?_, ?_, ?_, ?_, ?_, ?_, ?_⟩, known, ?_, fun _ _ _ _ => rfl⟩
  · intro answer member
    exact (sound.answered answer member).mono known
  · intro other
    by_cases mine : other = session
    · rw [mine, own]
      exact sound.faithful session
    · rw [same other mine]
      exact sound.faithful other
  · rintro other changed
    cases changed
    rw [process]
    refine ⟨?_, (sound.runtime runtime held).2⟩
    rw [shape]
    exact ⟨lively.formed, lively.taken, lively.tagged⟩
  · rintro other changed - named entered
    cases changed
    by_cases mine : named = session
    · rw [mine]
      exact .inr ⟨_, rfl⟩
    · rw [entries, if_neg mine] at entered
      rcases sound.registered runtime held alive named entered with lives | ⟨output, reads⟩
      · exact .inl lives
      · exact absurd reads (unread named output)
  · intro other used
    by_cases mine : other = session
    · subst mine
      refine ⟨written, _, rfl, (entries other).trans (if_pos rfl), ?_⟩
      exact (sound.opening held alive idle other).transfer process read own fun _ => rfl
    · obtain ⟨found, entry, serves, served, account⟩ := sound.served other (inUse other mine used)
      cases held.symm.trans serves
      refine ⟨written, entry, rfl, (entries other).trans ((if_neg mine).trans served), ?_⟩
      exact account.transfer process read (same other mine) fun _ => rfl
  · intro other inside
    exact sound.owned other (lookup_erase_isSome books.pending inside).2
  · rintro other output reads
    cases reads
    exact AList.lookup_erase _ _
  · rintro context ⟨-, inside⟩ ⟨other, named, entry, changed, served, source, used⟩
    cases changed
    rw [entries] at served
    by_cases mine : named = session
    · rw [if_pos mine] at served
      cases served
      rcases sound.context held alive session with ⟨entry, entered, here, used, -⟩ | ⟨new, -⟩
      · refine ⟨runtime, session, entry, held, entered, ?_, used⟩
        rw [source, here, process]
      · have below := inside runtime held (by rw [source, process])
        rw [source] at below
        exact absurd (new ▸ below) (Nat.lt_irrefl _)
    · rw [if_neg mine] at served
      exact ⟨runtime, named, entry, held, served, process ▸ source, inUse named mine used⟩

/-- What a line adds to what is held for a session. -/
structure Adds (frame : Frame) (process context : Nat) (stream : Stream) (before after : Capture) :
    Prop where
  extra : ∃ extra, after.frames = before.frames ++ extra ∧
    (∀ captured ∈ extra, captured.context = some (process, context)) ∧
    (extra.map Captured.text).map some = (frame.consoleText context stream).toList

theorem Adds.nothing {frame : Frame} {process context : Nat} {stream : Stream} (capture : Capture)
    (silent : frame.consoleText context stream = none) :
    Adds frame process context stream capture capture := by
  refine ⟨[], (List.append_nil _).symm, ?_, ?_⟩
  · intro captured member
    cases member
  · rw [silent]
    rfl

/-- A line is read, and what it says is held for its session. -/
theorem Sound.take {books after : Books} (sound : Sound books) {runtime : JsRuntime} {frame : Frame}
    (held : books.runtime = some runtime) (next : runtime.written[runtime.taken]? = some frame)
    (taking : after.runtime = some runtime.taking) (answers : after.answers = books.answers)
    (processes : after.nextProcess = books.nextProcess)
    (uses : ∀ session, after.InUse session ↔ books.InUse session)
    (adds : ∀ session entry, books.InUse session →
      runtime.settled.entries.lookup session = some entry → ∀ stream,
      Adds frame runtime.process entry.context stream ((books.held session).of stream)
        ((after.held session).of stream))
    (faithful : ∀ session, (after.held session).Faithful)
    (owned : ∀ session, (after.pending.lookup session).isSome → (after.sessions.lookup session).isSome)
    (clear : ∀ session output, after.reader = some (session, output) →
      after.pending.lookup session = none) : Sound after ∧ Moves books after := by
  have lively := (sound.runtime runtime held).1
  have known : ∀ context, books.Known context → after.Known context := by
    rintro context ⟨below, inside⟩
    refine ⟨processes ▸ below, ?_⟩
    intro other changed own
    cases taking.symm.trans changed
    exact inside runtime held own
  refine ⟨⟨?_, faithful, ?_, ?_, ?_, owned, clear⟩, known, ?_, ?_⟩
  · intro answer member
    exact (sound.answered answer (answers ▸ member)).mono known
  · intro other changed
    cases taking.symm.trans changed
    exact ⟨lively.taking next, processes ▸ (sound.runtime runtime held).2⟩
  · intro other changed alive session entered
    cases taking.symm.trans changed
    exact (uses session).mpr (sound.registered runtime held alive session entered)
  · intro session used
    have before := (uses session).mp used
    obtain ⟨other, entry, same, served, account⟩ := sound.served session before
    cases held.symm.trans same
    refine ⟨runtime.taking, entry, taking, served, ?_, ?_⟩
    · intro stream captured member
      obtain ⟨extra, frames, sources, -⟩ := (adds session entry before served stream).extra
      rw [frames] at member
      rcases List.mem_append.mp member with old | new
      · exact account.sources stream captured old
      · exact sources captured new
    · intro stream
      obtain ⟨extra, frames, -, texts⟩ := (adds session entry before served stream).extra
      rw [consoleTexts_taking next, account.conserved, ← texts, frames, answers]
      simp only [List.map_append, List.append_assoc]
      rfl
  · rintro context - ⟨other, session, entry, changed, served, own, used⟩
    cases taking.symm.trans changed
    exact ⟨runtime, session, entry, held, served, own, (uses session).mp used⟩
  · intro context _ _ stream
    rw [answers]

/-- A line that no session in use has to hear of is read. -/
theorem Sound.pass {books : Books} (sound : Sound books) {runtime : JsRuntime} {frame : Frame}
    (held : books.runtime = some runtime) (next : runtime.written[runtime.taken]? = some frame)
    (silent : ∀ session entry, books.InUse session →
      runtime.settled.entries.lookup session = some entry → ∀ stream,
      frame.consoleText entry.context stream = none) :
    Sound { books with runtime := some runtime.taking } ∧
      Moves books { books with runtime := some runtime.taking } :=
  sound.take held next rfl rfl rfl (fun _ => Iff.rfl)
    (fun session entry used served stream => .nothing _ (silent session entry used served stream))
    sound.faithful sound.owned sound.clear

theorem consoleText_apart {source context : Nat} {id : Option String} {session : String}
    {kind stream : Stream} {text : Option String} (apart : source ≠ context ∨ kind ≠ stream) :
    (Frame.console source id session kind text).consoleText context stream = none := by
  apply if_neg
  rintro ⟨same, kinds⟩
  rcases apart with other | other
  · exact other same
  · exact other kinds

/-- A console line of the context that serves its session is held for the session. -/
theorem Sound.hold {books after : Books} (sound : Sound books) {runtime : JsRuntime} {context : Nat}
    {id : Option String} {session text : String} {stream : Stream} {entry : JsEntry}
    (held : books.runtime = some runtime)
    (next : runtime.written[runtime.taken]? = some (.console context id session stream (some text)))
    (served : runtime.settled.entries.lookup session = some entry) (serves : entry.context = context)
    (taking : after.runtime = some runtime.taking) (answers : after.answers = books.answers)
    (processes : after.nextProcess = books.nextProcess)
    (uses : ∀ other, after.InUse other ↔ books.InUse other)
    (own : after.held session = (books.held session).append stream (some (.string text))
      (some (runtime.process, context)))
    (others : ∀ other, other ≠ session → after.held other = books.held other)
    (owned : ∀ other, (after.pending.lookup other).isSome → (after.sessions.lookup other).isSome)
    (clear : ∀ other output, after.reader = some (other, output) →
      after.pending.lookup other = none) : Sound after ∧ Moves books after := by
  have lively := (sound.runtime runtime held).1
  have written := List.mem_of_getElem? next
  have tagged := JsSessions.getElem_of_prefix (JsRuntime.settled_formed lively).2
    (lively.tagged context id session stream (some text) written).1
  refine sound.take held next taking answers processes uses ?_ ?_ owned clear
  · intro other found used serving kind
    by_cases mine : other = session
    · subst mine
      cases served.symm.trans serving
      rw [own, of_append]
      by_cases same : kind = stream
      · subst same
        have spoken : (Frame.console context id other kind (some text)).consoleText entry.context
            kind = some (some text) := if_pos ⟨serves.symm, rfl⟩
        rw [if_pos rfl]
        refine ⟨[⟨some (runtime.process, context), text⟩], rfl, ?_, ?_⟩
        · intro captured member
          obtain rfl := List.mem_singleton.mp member
          rw [serves]
        · rw [spoken]
          rfl
      · rw [if_neg same]
        exact .nothing _ (consoleText_apart (.inr (Ne.symm same)))
    · rw [others other mine]
      apply Adds.nothing
      apply consoleText_apart
      left
      rintro rfl
      exact mine (sound.unique held serving tagged)
  · intro other
    by_cases mine : other = session
    · rw [mine, own]
      exact (sound.faithful session).append stream text _
    · rw [others other mine]
      exact sound.faithful other

/-- The call that reads takes a console line of its session. -/
theorem Sound.hear {books : Books} (sound : Sound books) {runtime : JsRuntime} {context : Nat}
    {id : Option String} {session text : String} {stream : Stream} {entry : JsEntry}
    {output : PendingOut} (held : books.runtime = some runtime)
    (next : runtime.written[runtime.taken]? = some (.console context id session stream (some text)))
    (served : runtime.settled.entries.lookup session = some entry) (serves : entry.context = context)
    (reads : books.reader = some (session, output)) :
    Sound { books with
        runtime := some runtime.taking
        reader := some (session, output.append stream (some (.string text))
          (some (runtime.process, context))) } ∧
      Moves books { books with
        runtime := some runtime.taking
        reader := some (session, output.append stream (some (.string text))
          (some (runtime.process, context))) } := by
  refine sound.hold held next served serves rfl rfl rfl ?_ ?_ ?_ sound.owned ?_
  · intro other
    constructor
    · rintro (lives | ⟨given, now⟩)
      · exact .inl lives
      · cases now
        exact .inr ⟨output, reads⟩
    · rintro (lives | ⟨given, before⟩)
      · exact .inl lives
      · cases reads.symm.trans before
        exact .inr ⟨_, rfl⟩
  · rw [held_reader reads]
    exact held_reader rfl
  · intro other apart
    have before : ∀ given, books.reader ≠ some (other, given) := by
      intro given reading
      cases reads.symm.trans reading
      exact apart rfl
    refine held_congr before ?_ rfl
    intro given reading
    cases reading
    exact apart rfl
  · rintro other given now
    cases now
    exact sound.clear session output reads

/-- A console line of another session that lives is kept for its next call. -/
theorem Sound.queue {books : Books} (sound : Sound books) {runtime : JsRuntime} {context : Nat}
    {id : Option String} {session text : String} {stream : Stream} {entry : JsEntry}
    (held : books.runtime = some runtime)
    (next : runtime.written[runtime.taken]? = some (.console context id session stream (some text)))
    (served : runtime.settled.entries.lookup session = some entry) (serves : entry.context = context)
    (away : ∀ output, books.reader ≠ some (session, output))
    (lives : (books.sessions.lookup session).isSome) :
    Sound { books with
        runtime := some runtime.taking
        pending := books.pending.insert session (((books.pending.lookup session).getD .empty).append
          stream (some (.string text)) (some (runtime.process, context))) } ∧
      Moves books { books with
        runtime := some runtime.taking
        pending := books.pending.insert session (((books.pending.lookup session).getD .empty).append
          stream (some (.string text)) (some (runtime.process, context))) } := by
  let slot := ((books.pending.lookup session).getD .empty).append stream (some (.string text))
    (some (runtime.process, context))
  let kept : Books := { books with
    runtime := some runtime.taking, pending := books.pending.insert session slot }
  have queued : kept.held session = (kept.pending.lookup session).getD .empty := held_pending away
  refine sound.hold held next served serves rfl rfl rfl (fun _ => Iff.rfl) ?_ ?_ ?_ ?_
  · rw [held_pending away]
    exact queued.trans (congrArg (Option.getD · _) (AList.lookup_insert _))
  · intro other apart
    unfold Books.held
    dsimp only
    rw [AList.lookup_insert_ne apart]
  · intro other inside
    by_cases mine : other = session
    · rw [mine]
      exact lives
    · exact sound.owned other (AList.lookup_insert_ne mine ▸ inside)
  · intro other output reads
    have apart : other ≠ session := by
      rintro rfl
      exact away output reads
    exact (AList.lookup_insert_ne apart).trans (sound.clear other output reads)

/-- The call that reads comes back with its output, and its session lives from now on. -/
theorem Sound.complete {books : Books} (sound : Sound books) {runtime : JsRuntime} {session : String}
    {output : PendingOut} {entry : JsEntry} {answer : Answer} (held : books.runtime = some runtime)
    (reads : books.reader = some (session, output))
    (served : runtime.settled.entries.lookup session = some entry)
    (source : answer.context = some (runtime.process, entry.context))
    (given : answer.output = output) (now : Nat) :
    Sound { books with sessions := books.sessions.insert session now, reader := none,
                       answers := books.answers ++ [answer] } ∧
      Moves books { books with sessions := books.sessions.insert session now, reader := none,
                               answers := books.answers ++ [answer] } := by
  let closed : Books := { books with
    sessions := books.sessions.insert session now, reader := none,
    answers := books.answers ++ [answer] }
  have used : books.InUse session := .inr ⟨output, reads⟩
  have account := sound.account held served used
  have unread : ∀ other output, closed.reader ≠ some (other, output) := fun _ _ => nofun
  have away : ∀ other, other ≠ session → ∀ output, books.reader ≠ some (other, output) := by
    intro other apart output reading
    cases reads.symm.trans reading
    exact apart rfl
  have uses : ∀ other, closed.InUse other ↔ books.InUse other := by
    intro other
    by_cases mine : other = session
    · subst mine
      exact ⟨fun _ => used, fun _ => .inl ((AList.lookup_insert books.sessions).symm ▸ rfl)⟩
    · constructor
      · rintro (lives | ⟨output, reading⟩)
        · exact .inl (AList.lookup_insert_ne mine ▸ lives)
        · cases reading
      · rintro (lives | ⟨output, reading⟩)
        · exact .inl ((AList.lookup_insert_ne mine).symm ▸ lives)
        · exact absurd reading (away other mine output)
  have sources : ∀ stream, ∀ frame ∈ (answer.output.of stream).frames,
      frame.context = some (runtime.process, entry.context) := by
    rw [given, ← held_reader reads]
    exact account.sources
  have emptied : closed.held session = .empty := by
    rw [held_pending (unread session)]
    exact congrArg (Option.getD · _) (sound.clear session output reads)
  have same : ∀ other, other ≠ session → closed.held other = books.held other :=
    fun other apart => held_congr (away other apart) (unread other) rfl
  have known : ∀ context, books.Known context → closed.Known context := fun _ known => known
  -- only the context of the session has something to gain
  have delivered : ∀ context, context ≠ (runtime.process, entry.context) → ∀ stream,
      deliveredTexts closed.answers context stream = deliveredTexts books.answers context stream := by
    intro context apart stream
    apply deliveredTexts_other
    intro frame member own
    exact apart (Option.some.inj (own.symm.trans (sources stream frame member)))
  refine ⟨⟨?_, ?_, sound.runtime, ?_, ?_, ?_, ?_⟩, known, ?_, ?_⟩
  · intro other member
    rcases List.mem_append.mp member with old | last
    · exact (sound.answered other old).mono known
    · obtain rfl := List.mem_singleton.mp last
      refine ⟨?_, ?_, ?_⟩
      · rw [given, ← held_reader reads]
        exact sound.faithful session
      · intro stream frame member
        have own := sources stream frame member
        exact ⟨by rw [own]; rfl, own.trans source.symm⟩
      · intro context own
        cases source.symm.trans own
        exact sound.known held served
  · intro other
    by_cases mine : other = session
    · rw [mine, emptied]
      exact faithful_empty
    · rw [same other mine]
      exact sound.faithful other
  · intro other same alive named entered
    exact (uses named).mpr (sound.registered other same alive named entered)
  · intro other live
    by_cases mine : other = session
    · subst mine
      refine ⟨runtime, entry, held, served, ?_, ?_⟩
      · intro stream frame member
        rw [emptied, frames_empty] at member
        cases member
      · intro stream
        have gains : deliveredTexts closed.answers (runtime.process, entry.context) stream =
            deliveredTexts books.answers (runtime.process, entry.context) stream ++
              ((books.held other).of stream).frames.map Captured.text := by
          rw [deliveredTexts_concat, textsOf_own (sources stream), given, held_reader reads]
        rw [account.conserved, gains, emptied, frames_empty, List.map_nil, List.append_nil]
    · obtain ⟨found, entered, serves, serving, kept⟩ := sound.served other ((uses other).mp live)
      cases held.symm.trans serves
      have apart : (runtime.process, entered.context) ≠ (runtime.process, entry.context) := by
        intro together
        have context : entered.context = entry.context := congrArg Prod.snd together
        exact mine (sound.unique held serving (context ▸ sound.tagged held served))
      refine ⟨runtime, entered, held, serving, ?_⟩
      exact kept.transfer rfl rfl (same other mine) (delivered _ apart)
  · intro other pending
    have lives := sound.owned other pending
    by_cases mine : other = session
    · rw [mine]
      exact (AList.lookup_insert books.sessions).symm ▸ rfl
    · exact (AList.lookup_insert_ne mine).symm ▸ lives
  · intro other given reading
    cases reading
  · rintro context - ⟨other, named, found, same, serves, own, live⟩
    exact ⟨other, named, found, same, serves, own, (uses named).mp live⟩
  · intro context _ gone stream
    apply delivered
    rintro rfl
    exact gone ⟨runtime, session, entry, held, served, rfl, used⟩

/-- The runtime is killed, and all sessions go with it. -/
theorem Sound.lose {books : Books} (sound : Sound books) :
    Sound { books with runtime := none, sessions := ∅, pending := ∅, reader := none } ∧
      Moves books { books with runtime := none, sessions := ∅, pending := ∅, reader := none } := by
  let lost : Books := { books with runtime := none, sessions := ∅, pending := ∅, reader := none }
  have free : ∀ session, ¬lost.InUse session := by
    rintro session (lives | ⟨output, reads⟩)
    · cases lives
    · cases reads
  have known : ∀ context, books.Known context → lost.Known context := by
    rintro context ⟨below, -⟩
    refine ⟨below, ?_⟩
    intro runtime same
    cases same
  refine ⟨⟨?_, fun _ => faithful_empty, ?_, ?_, fun session used => absurd used (free session), ?_, ?_⟩,
    known, ?_, fun _ _ _ _ => rfl⟩
  · intro answer member
    exact (sound.answered answer member).mono known
  · intro runtime same
    cases same
  · intro runtime same
    cases same
  · intro session pending
    cases pending
  · intro session output reads
    cases reads
  · rintro context - ⟨runtime, session, entry, same, -⟩
    cases same

/-- Nothing changes when a session is dropped that is not there. -/
theorem erase_absent {Row : Type} {table : Table String Row} {session : String}
    (absent : table.lookup session = none) : table.erase session = table :=
  AList.ext (List.kerase_of_notMem_keys (AList.lookup_eq_none.mp absent))

/-- There are no sessions without a runtime. -/
theorem Sound.absent {books : Books} (sound : Sound books) (missing : books.runtime = none)
    (session : String) :
    books.sessions.lookup session = none ∧ books.pending.lookup session = none := by
  have free : ¬(books.sessions.lookup session).isSome := by
    intro lives
    obtain ⟨runtime, -, held, -⟩ := sound.served session (.inl lives)
    rw [missing] at held
    cases held
  refine ⟨Option.not_isSome_iff_eq_none.mp free, Option.not_isSome_iff_eq_none.mp ?_⟩
  exact fun queued => free (sound.owned session queued)

end Books

end EvalEngine

end Daemon
