import SynthHiresBridge.Data.Clip
import SynthHiresBridge.Proof.EvalConsole

namespace Daemon

open Json Transition

namespace EvalEngine

/-- What a full buffer takes once for all that is left out. -/
def mark : String := "…\n"

theorem mark_size : mark.utf8ByteSize = 4 := by decide

/-- A buffer that ends as if something was left out. -/
def Marked (buffer : String) : Prop := mark.toList <:+ buffer.toList

instance (buffer : String) : Decidable (Marked buffer) :=
  inferInstanceAs (Decidable (mark.toList <:+ buffer.toList))

theorem appendText_eq (buffer text : String) : appendText buffer text =
    if buffer.utf8ByteSize < maxCapturedChars then buffer ++ text ++ "\n"
    else if Marked buffer then buffer else buffer ++ mark := by
  have name : "…\n" = mark := rfl
  rw [appendText, name]
  exact if_congr Iff.rfl rfl (if_congr List.isSuffixOf_iff_suffix rfl rfl)

theorem marked_mark (buffer : String) : Marked (buffer ++ mark) := by
  rw [Marked, String.toList_append]
  exact List.suffix_append _ _

theorem wholeText_concat (frames : List Captured) (last : Captured) :
    wholeText (frames ++ [last]) = wholeText frames ++ last.text ++ "\n" := by
  rw [wholeText, List.foldl_append]
  rfl

theorem cappedText_concat (frames : List Captured) (last : Captured) :
    cappedText (frames ++ [last]) = appendText (cappedText frames) last.text := by
  rw [cappedText, List.foldl_append]
  rfl

theorem wholeText_append (frames later : List Captured) :
    wholeText (frames ++ later) = wholeText frames ++ wholeText later := by
  induction later using List.reverseRecOn with
  | nil =>
      have none : wholeText [] = "" := rfl
      rw [List.append_nil, none, String.append_empty]
  | append_singleton later last ih =>
      rw [← List.append_assoc, wholeText_concat, wholeText_concat, ih, String.append_assoc,
        String.append_assoc, String.append_assoc]

theorem wholeText_size_le (frames later : List Captured) :
    (wholeText frames).utf8ByteSize ≤ (wholeText (frames ++ later)).utf8ByteSize := by
  rw [wholeText_append, String.utf8ByteSize_append]
  exact Nat.le_add_right _ _

/-- Frames fill a buffer when the last one of them reaches the limit. -/
structure Fills (before : List Captured) (last : Captured) : Prop where
  below : (wholeText before).utf8ByteSize < maxCapturedChars
  full : maxCapturedChars ≤ (wholeText (before ++ [last])).utf8ByteSize

/-- A buffer is below its limit, or some frame filled it. -/
theorem below_or_fills (frames : List Captured) :
    (wholeText frames).utf8ByteSize < maxCapturedChars ∨
      ∃ before last later, frames = before ++ last :: later ∧ Fills before last := by
  induction frames using List.reverseRecOn with
  | nil =>
      left
      have none : (wholeText []).utf8ByteSize = 0 := rfl
      rw [none, maxCapturedChars]
      decide
  | append_singleton frames last ih =>
      rcases ih with below | ⟨before, first, later, rfl, fills⟩
      · rcases Nat.lt_or_ge (wholeText (frames ++ [last])).utf8ByteSize maxCapturedChars with
          small | full
        · exact .inl small
        · exact .inr ⟨frames, last, [], rfl, below, full⟩
      · right
        exact ⟨before, first, later ++ [last], by rw [List.append_assoc, List.cons_append], fills⟩

/-- After the frame that filled a buffer, it takes a mark unless it ends with one. -/
theorem Fills.cappedText {before : List Captured} {last : Captured} (fills : Fills before last)
    (later : List Captured) : EvalEngine.cappedText (before ++ last :: later) =
      if later = [] ∨ Marked (wholeText (before ++ [last])) then wholeText (before ++ [last])
      else wholeText (before ++ [last]) ++ mark := by
  induction later using List.reverseRecOn with
  | nil =>
      rw [if_pos (.inl rfl), cappedText_concat, cappedText_below fills.below, appendText_eq,
        if_pos fills.below, wholeText_concat]
  | append_singleton later next ih =>
      have more : later ++ [next] ≠ [] := List.concat_ne_nil _ _
      have split : before ++ last :: (later ++ [next]) = before ++ last :: later ++ [next] := by
        rw [List.append_assoc, List.cons_append]
      rw [split, cappedText_concat, ih]
      by_cases marked : Marked (wholeText (before ++ [last]))
      · have early : later = [] ∨ Marked (wholeText (before ++ [last])) := .inr marked
        have late : later ++ [next] = [] ∨ Marked (wholeText (before ++ [last])) := .inr marked
        rw [if_pos early, if_pos late, appendText_eq, if_neg (Nat.not_lt.mpr fills.full),
          if_pos marked]
      · rw [if_neg (not_or.mpr ⟨more, marked⟩)]
        by_cases first : later = []
        · have early : later = [] ∨ Marked (wholeText (before ++ [last])) := .inl first
          rw [if_pos early, appendText_eq, if_neg (Nat.not_lt.mpr fills.full), if_neg marked]
        · have long : ¬ (wholeText (before ++ [last]) ++ mark).utf8ByteSize < maxCapturedChars := by
            have full := fills.full
            rw [String.utf8ByteSize_append]
            omega
          rw [if_neg (not_or.mpr ⟨first, marked⟩), appendText_eq, if_neg long,
            if_pos (marked_mark _)]

/-- A capture is its stream, or it is an earlier part of the stream and a mark, and it is no longer
than the limit and a mark. -/
structure Capture.Bounded (capture : Capture) : Prop where
  short : capture.text.utf8ByteSize ≤ maxCapturedChars + mark.utf8ByteSize
  text : capture.text = wholeText capture.frames ∨ ∃ kept,
    kept.toList <+: (wholeText capture.frames).toList ∧ kept ≠ wholeText capture.frames ∧
      capture.text = kept ++ mark

/-- The frame that fills a buffer goes no further than a mark beyond the limit. When more frames come,
it ends with an ellipsis, or it goes exactly to the limit. -/
def Modest (frames : List Captured) : Prop :=
  ∀ before last later, frames = before ++ last :: later → Fills before last →
    (wholeText (before ++ [last])).utf8ByteSize ≤ maxCapturedChars + mark.utf8ByteSize ∧
      (later ≠ [] → "…".toList <:+ last.text.toList ∨
        (wholeText (before ++ [last])).utf8ByteSize = maxCapturedChars)

theorem singleton_suffix_concat_iff {items : List Char} {last char : Char} :
    [char] <:+ items ++ [last] ↔ char = last := by
  constructor
  · rintro ⟨front, made⟩
    exact (List.cons.inj (List.append_inj' made rfl).2).1
  · rintro rfl
    exact List.suffix_append _ _

/-- A text ends as if something was left out, when its last frame ends with an ellipsis. -/
theorem marked_concat_iff (before : List Captured) (last : Captured) :
    Marked (wholeText (before ++ [last])) ↔ "…".toList <:+ last.text.toList := by
  have parts : mark.toList = ['…'] ++ ['\n'] := by decide
  have ellipsis : "…".toList = ['…'] := by decide
  have newline : "\n".toList = ['\n'] := by decide
  rw [Marked, wholeText_concat, String.toList_append, String.toList_append, parts, ellipsis, newline,
    List.suffix_append_self_iff]
  cases last.text.toList using List.reverseRecOn with
  | nil =>
      rw [List.append_nil]
      refine iff_of_false ?_ (by decide)
      cases before using List.reverseRecOn with
      | nil => exact fun inside => absurd inside (by decide)
      | append_singleton front final =>
          rw [wholeText_concat, String.toList_append, newline, singleton_suffix_concat_iff]
          decide
  | append_singleton front char =>
      rw [← List.append_assoc, singleton_suffix_concat_iff, singleton_suffix_concat_iff]

/-- The frame that fills a buffer is the only one of its kind. -/
theorem Fills.unique {before other : List Captured} {last next : Captured}
    {later rest : List Captured} (one : Fills before last) (two : Fills other next)
    (same : before ++ last :: later = other ++ next :: rest) :
    other = before ∧ next = last ∧ rest = later := by
  have apart {front back : List Captured} {first final : Captured} (filled : Fills front first)
      (again : Fills back final) (more : List Captured) : back ≠ front ++ first :: more := by
    rintro rfl
    have size := wholeText_size_le (front ++ [first]) more
    rw [List.append_assoc, List.singleton_append] at size
    exact absurd (Nat.le_trans filled.full size) (Nat.not_le.mpr again.below)
  rcases Clip.place_cases same with ⟨more, longer⟩ | here | ⟨more, longer⟩
  · exact absurd longer (apart two one more)
  · exact here
  · exact absurd longer (apart one two more)

theorem Fills.modest_iff {before : List Captured} {last : Captured} {later : List Captured}
    (fills : Fills before last) : Modest (before ++ last :: later) ↔
      (wholeText (before ++ [last])).utf8ByteSize ≤ maxCapturedChars + mark.utf8ByteSize ∧
        (later ≠ [] → Marked (wholeText (before ++ [last])) ∨
          (wholeText (before ++ [last])).utf8ByteSize = maxCapturedChars) := by
  rw [marked_concat_iff]
  constructor
  · exact fun modest => modest before last later rfl fills
  · rintro limited other next rest same filled
    obtain ⟨rfl, rfl, rfl⟩ := fills.unique filled same
    exact limited

theorem wholeText_pos {frames : List Captured} (some : frames ≠ []) :
    0 < (wholeText frames).utf8ByteSize := by
  cases frames using List.reverseRecOn with
  | nil => exact absurd rfl some
  | append_singleton front last =>
      have newline : "\n".utf8ByteSize = 1 := by decide
      rw [wholeText_concat, String.utf8ByteSize_append, newline]
      exact Nat.succ_pos _

theorem ne_of_size {short long : String} (less : short.utf8ByteSize < long.utf8ByteSize) :
    short ≠ long := fun same => absurd (congrArg String.utf8ByteSize same) (Nat.ne_of_lt less)

/-- A buffer holds its bound, when the frame that fills it is modest. -/
theorem Capture.Faithful.bounded_iff {capture : Capture} (faithful : capture.Faithful) :
    capture.Bounded ↔ Modest capture.frames := by
  rcases below_or_fills capture.frames with below | ⟨before, last, later, made, fills⟩
  · have text : capture.text = wholeText capture.frames := faithful.trans (cappedText_below below)
    refine iff_of_true ⟨?_, .inl text⟩ ?_
    · rw [text]
      omega
    · rintro before last later made fills
      have size := wholeText_size_le (before ++ [last]) later
      rw [List.append_assoc, List.singleton_append, ← made] at size
      exact absurd below (Nat.not_lt.mpr (Nat.le_trans fills.full size))
  · have text := faithful.trans ((congrArg cappedText made).trans (fills.cappedText later))
    have whole : wholeText capture.frames = wholeText (before ++ [last]) ++ wholeText later := by
      rw [made, ← wholeText_append, List.append_assoc, List.singleton_append]
    rw [made, fills.modest_iff]
    by_cases uncut : later = [] ∨ Marked (wholeText (before ++ [last]))
    · rw [if_pos uncut] at text
      constructor
      · rintro ⟨short, -⟩
        rw [text] at short
        exact ⟨short, fun more => .inl (uncut.resolve_left more)⟩
      · rintro ⟨short, -⟩
        refine ⟨by rwa [text], ?_⟩
        rcases uncut with rfl | ⟨kept, marked⟩
        · have none : wholeText [] = "" := rfl
          rw [none, String.append_empty] at whole
          exact .inl (text.trans whole.symm)
        · have cut : wholeText (before ++ [last]) = String.ofList kept ++ mark := by
            rw [← String.toList_inj, String.toList_append, String.toList_ofList, marked]
          refine .inr ⟨String.ofList kept, ?_, ne_of_size ?_, text.trans cut⟩
          · rw [whole, cut, String.toList_append, String.toList_append, List.append_assoc]
            exact List.prefix_append _ _
          · rw [whole, cut, String.utf8ByteSize_append, String.utf8ByteSize_append, mark_size]
            omega
    · rw [if_neg uncut] at text
      obtain ⟨more, unmarked⟩ := not_or.mp uncut
      have full := fills.full
      constructor
      · rintro ⟨short, -⟩
        rw [text, String.utf8ByteSize_append] at short
        exact ⟨by omega, fun _ => .inr (by omega)⟩
      · rintro ⟨-, limited⟩
        have reached := (limited more).resolve_left unmarked
        refine ⟨?_, .inr ⟨wholeText (before ++ [last]), ?_, ne_of_size ?_, text⟩⟩
        · rw [text, String.utf8ByteSize_append, reached]
        · rw [whole, String.toList_append]
          exact List.prefix_append _ _
        · have positive := wholeText_pos more
          rw [whole, String.utf8ByteSize_append]
          omega

theorem appendCapped_faithful {capture : Capture} (faithful : capture.Faithful) (data : Option Value)
    (context : Option Context) : (appendCapped capture data context).Faithful := by
  rw [appendCapped]
  split
  · rename_i text
    rw [Capture.Faithful, cappedText_concat, ← faithful]
  · exact faithful

theorem PendingOut.Faithful.take {output : PendingOut} (faithful : output.Faithful) (stream : Stream)
    (data : Option Value) (context : Option Context) : (output.append stream data context).Faithful := by
  intro other
  cases stream with
  | stdout => cases other with
    | stdout => exact appendCapped_faithful (faithful .stdout) data context
    | stderr => exact faithful .stderr
  | stderr => cases other with
    | stdout => exact faithful .stdout
    | stderr => exact appendCapped_faithful (faithful .stderr) data context

namespace EvalWorld

/-- A world holds a capture for a later call, in the call that reads or in an answer. -/
def Holds (world : EvalWorld) (capture : Capture) : Prop :=
  (∃ session output stream, world.inner.pending.lookup session = some output ∧
    capture = output.of stream) ∨
  (∃ session output stream, world.books.reader = some (session, output) ∧
    capture = output.of stream) ∨
  ∃ answer ∈ world.answers, ∃ stream, capture = answer.output.of stream

/-- All captures have the text of their frames. -/
structure Filled (world : EvalWorld) : Prop where
  queued : ∀ session output, world.inner.pending.lookup session = some output → output.Faithful
  reading : ∀ session output, world.books.reader = some (session, output) → output.Faithful
  answered : ∀ answer ∈ world.answers, answer.output.Faithful

theorem Filled.holds {world : EvalWorld} (filled : world.Filled) {capture : Capture}
    (held : world.Holds capture) : capture.Faithful := by
  rcases held with ⟨session, output, stream, queued, rfl⟩ | ⟨session, output, stream, reads, rfl⟩ |
    ⟨answer, member, stream, rfl⟩
  · exact filled.queued session output queued stream
  · exact filled.reading session output reads stream
  · exact filled.answered answer member stream

theorem sendRequest_pending (inner : EngineInner) (process : Nat) (attempt : Attempt)
    (command : EvalCommand) : (sendRequest inner process attempt command).2.pending = inner.pending := by
  rw [sendRequest]
  split
  · rfl
  · split <;> rfl

namespace Filled

variable {world : EvalWorld}

theorem finish (filled : world.Filled) (context : Option Context)
    {outcome : Except EvalError EvalResult} (given : (Answer.mk context outcome).output.Faithful) :
    (world.finish context outcome).Filled := by
  refine ⟨filled.queued, nofun, ?_⟩
  rw [EvalWorld.finish, List.forall_mem_append, List.forall_mem_singleton]
  exact ⟨filled.answered, given⟩

theorem fail (filled : world.Filled) (error : DaemonError) : (world.fail error).Filled :=
  filled.finish none faithful_empty

theorem kill (filled : world.Filled) (text : String) : (world.kill text).Filled := by
  have killed : EvalWorld.Filled { world with inner := killRuntime world.inner } := by
    refine ⟨fun session output queued => ?_, filled.reading, filled.answered⟩
    cases queued
  exact killed.fail _

theorem complete (filled : world.Filled) (call : EvalCall) {outcome : Except EvalError EvalResult}
    (given : ∀ context, (Answer.mk context outcome).output.Faithful) :
    (world.complete call outcome).Filled := by
  have lives : EvalWorld.Filled { world with inner := { world.inner with
      sessions := world.inner.sessions.insert call.session world.now } } :=
    ⟨filled.queued, filled.reading, filled.answered⟩
  exact lives.finish _ (given _)

theorem erase (filled : world.Filled) (session : String) : ∀ other output,
    (world.inner.pending.erase session).lookup other = some output → output.Faithful := by
  intro other output queued
  by_cases same : other = session
  · rw [same, AList.lookup_erase] at queued
    cases queued
  · rw [AList.lookup_erase_ne same] at queued
    exact filled.queued other output queued

theorem exec (filled : world.Filled) (gate : CapabilityGate) (request : EvalRequest)
    (fresh : String) : (world.exec gate request fresh).Filled := by
  rw [EvalWorld.exec]
  split_ifs
  · exact filled.fail _
  · exact filled.fail _
  · exact ⟨filled.queued, nofun, filled.answered⟩

theorem reap (filled : world.Filled) (call : EvalCall) (rest : List String) (session : String)
    (attempt : Attempt) : (world.reap call rest session attempt).Filled := by
  refine ⟨?_, nofun, filled.answered⟩
  rw [EvalWorld.reap]
  dsimp only
  rw [sendRequest_pending]
  exact filled.erase session

theorem queue (filled : world.Filled) (session : String) :
    ((world.inner.pending.lookup session).getD .empty).Faithful := by
  cases queued : world.inner.pending.lookup session with
  | none => exact faithful_empty
  | some output => exact filled.queued session output queued

theorem send (filled : world.Filled) (call : EvalCall) (attempt : Attempt) :
    (world.send call attempt).Filled := by
  have same := sendRequest_pending world.inner world.nextProcess attempt
    (.exec attempt.id call.session call.code)
  rw [EvalWorld.send]
  dsimp only
  split
  · have tried : EvalWorld.Filled { world with
        inner := (sendRequest world.inner world.nextProcess attempt
          (.exec attempt.id call.session call.code)).2
        nextProcess := world.nextProcess + 1
        used := attempt.id :: world.used } := by
      refine ⟨?_, filled.reading, filled.answered⟩
      dsimp only
      rw [same]
      exact filled.queued
    exact tried.fail _
  · refine ⟨?_, fun session output reads => ?_, filled.answered⟩
    · dsimp only
      rw [same]
      exact filled.erase call.session
    · obtain ⟨-, rfl⟩ := Prod.mk.inj (Option.some.inj reads)
      rw [same]
      exact filled.queue call.session

theorem route (filled : world.Filled) (call : EvalCall) (requestId : String) (deadline : Nat)
    {output : PendingOut} (given : output.Faithful) (context : Option Context) (stream : Stream)
    (message : Value) :
    (world.route call requestId deadline output context stream message).Filled := by
  rw [EvalWorld.route]
  dsimp only
  split
  · refine ⟨filled.queued, fun session held reads => ?_, filled.answered⟩
    obtain ⟨-, rfl⟩ := Prod.mk.inj (Option.some.inj reads)
    exact given.take _ _ _
  · split
    · rename_i other _
      split
      · refine ⟨fun session held queued => ?_, filled.reading, filled.answered⟩
        dsimp only at queued
        by_cases same : session = other
        · rw [same, AList.lookup_insert] at queued
          obtain rfl := Option.some.inj queued
          exact (filled.queue other).take _ _ _
        · rw [AList.lookup_insert_ne same] at queued
          exact filled.queued session held queued
      · exact filled
    · exact filled

theorem receive (filled : world.Filled) (call : EvalCall) (requestId : String) (deadline : Nat)
    {output : PendingOut} (given : output.Faithful) (context : Option Context) (message : Value) :
    (world.receive call requestId deadline output context message).Filled := by
  rw [EvalWorld.receive]
  split
  · exact filled.route call requestId deadline given context .stdout message
  · exact filled.route call requestId deadline given context .stderr message
  · split
    · exact filled.complete call fun _ => given
    · exact filled
  · split
    · exact filled.complete call fun _ => given
    · exact filled
  · exact filled

theorem read (filled : world.Filled) (call : EvalCall) (requestId : String) (deadline : Nat)
    {output : PendingOut} (given : output.Faithful) :
    (world.read call requestId deadline output).Filled := by
  rw [EvalWorld.read]
  split
  · exact filled
  · dsimp only
    split
    · rename_i runtime _ _ frame _
      have taken : EvalWorld.Filled { world with inner := { world.inner with
          runtime := some { runtime with taken := runtime.taken + 1 } } } :=
        ⟨filled.queued, filled.reading, filled.answered⟩
      split
      · exact taken.receive call requestId deadline given _ _
      · exact taken
    · split_ifs
      · exact filled
      · exact filled.kill _

theorem step (filled : world.Filled) (event : EvalEvent) : (world.step event).Filled := by
  cases event with
  | passes | runtime => exact ⟨filled.queued, filled.reading, filled.answered⟩
  | exec gate request fresh =>
      rw [EvalWorld.step]
      split
      · exact filled.exec gate request fresh
      · exact filled
  | reap session attempt =>
      rw [EvalWorld.step]
      split
      · split
        · exact filled.reap _ _ session attempt
        · exact filled
      · exact filled
  | send attempt =>
      rw [EvalWorld.step]
      split
      · split
        · exact filled.send _ attempt
        · exact filled
      · exact filled
  | read =>
      rw [EvalWorld.step]
      split
      · rename_i own code requestId deadline output called
        have given : output.Faithful := by
          refine filled.reading own output ?_
          rw [books, called]
          rfl
        exact filled.read _ requestId deadline given
      · exact filled
  | readError detail =>
      rw [EvalWorld.step]
      split
      · exact filled.kill _
      · exact filled
  | lapse | deadline =>
      rw [EvalWorld.step]
      split
      · split
        · exact filled.kill _
        · exact filled
      · exact filled

end Filled

theorem run_filled (events : List EvalEvent) : (run step start events).Filled := by
  induction events using List.reverseRecOn with
  | nil =>
      refine ⟨fun session output queued => ?_, nofun, nofun⟩
      cases queued
  | append_singleton events event ih =>
      rw [run_concat]
      exact ih.step event

/-- The context of a session writes one line. -/
def writesLine (text : String) : List EvalEvent :=
  [.exec shellGate ⟨"1", some "a"⟩ "f", .send ⟨"1", .ok true, ""⟩, .runtime .command,
    .runtime (.console 0 .stdout (some text)), .read]

theorem writesLine_held (text : String) : (run step start (writesLine text)).Holds
    ⟨appendText "" text, [⟨some (0, 0), text⟩]⟩ :=
  .inr (.inl ⟨"a", ⟨⟨appendText "" text, [⟨some (0, 0), text⟩]⟩, .empty⟩, .stdout, rfl, rfl⟩)

end EvalWorld

end EvalEngine

end Daemon
