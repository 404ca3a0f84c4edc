import SynthHiresBridge.Data.LineGroups
import SynthHiresBridge.Data.Lines
import SynthHiresBridge.Proof.OutputBuffer

namespace Daemon.Pty

/-- A line as it is kept has no carriage return at its end. -/
def keptLine (line : List Char) : List Char := (Text.stripLast '\r' line).getD line

/-- The complete lines and the line that goes on, without any limit. -/
def followChar (state : List (List Char) × List Char) (char : Char) :
    List (List Char) × List Char :=
  if char = '\n' then (state.1 ++ [keptLine state.2], []) else (state.1, state.2 ++ [char])

def follow (state : List (List Char) × List Char) (text : List Char) :
    List (List Char) × List Char := text.foldl followChar state

theorem follow_concat (state : List (List Char) × List Char) (text : List Char) (char : Char) :
    follow state (text ++ [char]) = followChar (follow state text) char := by
  rw [follow, List.foldl_append]
  rfl

/-- Text with line breaks of one kind. -/
def lineBreaks : List Char → List Char
  | [] => []
  | '\r' :: '\n' :: rest => '\n' :: lineBreaks rest
  | char :: rest => char :: lineBreaks rest

/-- What the pushes and drains of a terminal have found, and what is there now. -/
structure View where
  drains : List (List (List Char) × List Char)
  now : List (List Char) × List Char

def View.step (view : View) : Event → View
  | .push chunk => { view with now := follow view.now (scrubAnsi chunk) }
  | .drain => ⟨view.drains ++ [view.now], ([], view.now.2)⟩

def viewOf (events : List Event) : View := events.foldl View.step ⟨[], [], []⟩

theorem viewOf_concat (events : List Event) (event : Event) :
    viewOf (events ++ [event]) = (viewOf events).step event := by
  rw [viewOf, List.foldl_append]
  rfl

/-- The lines since the last drain and the last line stay within their limits. -/
def WithinCaps (events : List Event) : Prop :=
  ∀ done, done <+: events → (viewOf done).now.1.length ≤ ringLines ∧
    byteLen (viewOf done).now.2 ≤ partialBytes

theorem followChar_grows (state : List (List Char) × List Char) (char : Char) :
    state.1.length ≤ (followChar state char).1.length := by
  rw [followChar]
  split_ifs
  · rw [List.length_append]
    exact Nat.le_add_right _ _
  · exact Nat.le_refl _

theorem evict_few {buffer : BufferState} (few : buffer.lines.length ≤ ringLines) :
    buffer.evict = .ok buffer := by
  rw [BufferState.evict, if_neg (Nat.not_lt.mpr few)]

/-- A ring that does not run over keeps every line, and every byte is counted. -/
theorem pushChars_follow {buffer : BufferState} {chars : List Char}
    (few : (follow (buffer.lines, buffer.partialLine) chars).1.length ≤ ringLines) :
    ∃ bytes, buffer.pushChars chars =
        .ok ⟨(follow (buffer.lines, buffer.partialLine) chars).1,
          (follow (buffer.lines, buffer.partialLine) chars).2, bytes⟩ ∧
      bytes + byteLen (follow (buffer.lines, buffer.partialLine) chars).2 =
        buffer.bytes + byteLen buffer.partialLine + byteLen chars := by
  induction chars using List.reverseRecOn with
  | nil => exact ⟨buffer.bytes, rfl, rfl⟩
  | append_singleton chars char ih =>
      rw [follow_concat] at few ⊢
      obtain ⟨bytes, done, counted⟩ := ih (Nat.le_trans (followChar_grows _ _) few)
      generalize follow (buffer.lines, buffer.partialLine) chars = state at few done counted ⊢
      rw [followChar] at few ⊢
      have one : byteLen [char] = char.utf8Size := Clip.weight_singleton _ _
      split_ifs at few ⊢ with newline
      · have size : char.utf8Size = 1 := by
          rw [newline]
          rfl
        refine ⟨bytes + (byteLen state.2 + 1), Except.foldlM_concat_ok_iff.mpr ⟨_, done, ?_⟩, ?_⟩
        · rw [BufferState.pushChar, if_pos newline]
          exact evict_few few
        · have none : byteLen [] = 0 := rfl
          rw [byteLen_append, one, size, none]
          omega
      · refine ⟨bytes, Except.foldlM_concat_ok_iff.mpr ⟨_, done, ?_⟩, ?_⟩
        · rw [BufferState.pushChar, if_neg newline]
        · rw [byteLen_append, byteLen_append, one]
          omega

theorem capPartial_short {buffer : BufferState}
    (short : byteLen buffer.partialLine ≤ partialBytes) : buffer.capPartial = .ok buffer := by
  rw [BufferState.capPartial, if_neg (Nat.not_lt.mpr short)]

/-- A push within the limits shows its text, and every byte of it is counted. -/
theorem push_follow (buffer : BufferState) (chunk : String)
    (few : (follow (buffer.lines, buffer.partialLine) (scrubAnsi chunk)).1.length ≤ ringLines)
    (short : byteLen (follow (buffer.lines, buffer.partialLine) (scrubAnsi chunk)).2 ≤ partialBytes) :
    ∃ bytes, buffer.push chunk =
        .ok ⟨(follow (buffer.lines, buffer.partialLine) (scrubAnsi chunk)).1,
          (follow (buffer.lines, buffer.partialLine) (scrubAnsi chunk)).2, bytes⟩ ∧
      bytes + byteLen (follow (buffer.lines, buffer.partialLine) (scrubAnsi chunk)).2 =
        buffer.bytes + byteLen buffer.partialLine + byteLen (scrubAnsi chunk) := by
  obtain ⟨bytes, done, counted⟩ := pushChars_follow few
  refine ⟨bytes, ?_, counted⟩
  rw [BufferState.push, done]
  exact capPartial_short short

theorem WithinCaps.front {front rest : List Event} (within : WithinCaps (front ++ rest)) :
    WithinCaps front :=
  fun done early => within done (early.trans (List.prefix_append _ _))

/-- Within the limits a terminal is what its view tells. -/
theorem WithinCaps.run {events : List Event} (within : WithinCaps events) :
    ∃ bytes, Terminal.start.run events =
      .ok ⟨⟨(viewOf events).now.1, (viewOf events).now.2, bytes⟩,
        (viewOf events).drains.map (Lines.joinGroup '\n')⟩ := by
  induction events using List.reverseRecOn with
  | nil => exact ⟨0, rfl⟩
  | append_singleton events event ih =>
      obtain ⟨bytes, done⟩ := ih within.front
      have own := within (events ++ [event]) (List.prefix_refl _)
      rw [viewOf_concat] at own ⊢
      cases event with
      | push chunk =>
          obtain ⟨few, short⟩ := own
          obtain ⟨after, pushed, -⟩ :=
            push_follow ⟨(viewOf events).now.1, (viewOf events).now.2, bytes⟩ chunk few short
          exact ⟨after, Except.foldlM_concat_ok_iff.mpr
            ⟨_, done, Except.map_ok_iff.mpr ⟨_, pushed, rfl⟩⟩⟩
      | drain =>
          refine ⟨0, Except.foldlM_concat_ok_iff.mpr ⟨_, done, ?_⟩⟩
          rw [Terminal.step, View.step, List.map_append]
          rfl

theorem follow_line (state : List (List Char) × List Char) {front : List Char}
    (clean : '\n' ∉ front) (rest : List Char) : follow state (front ++ '\n' :: rest) =
      follow (state.1 ++ [keptLine (state.2 ++ front)], []) rest := by
  induction front generalizing state with
  | nil =>
      rw [List.nil_append, List.append_nil]
      rfl
  | cons char front ih =>
      obtain ⟨other, later⟩ := not_or.mp (List.mem_cons.not.mp clean)
      have step : follow state (char :: front ++ '\n' :: rest) =
          follow (followChar state char) (front ++ '\n' :: rest) := rfl
      rw [step, ih _ later, followChar, if_neg (Ne.symm other), List.append_assoc,
        List.singleton_append]

theorem follow_clean (state : List (List Char) × List Char) {rest : List Char}
    (clean : '\n' ∉ rest) : follow state rest = (state.1, state.2 ++ rest) := by
  induction rest generalizing state with
  | nil =>
      rw [List.append_nil]
      rfl
  | cons char rest ih =>
      obtain ⟨other, later⟩ := not_or.mp (List.mem_cons.not.mp clean)
      have step : follow state (char :: rest) = follow (followChar state char) rest := rfl
      rw [step, ih _ later, followChar, if_neg (Ne.symm other), List.append_assoc,
        List.singleton_append]

theorem keptLine_cons (first second : Char) (rest : List Char) :
    keptLine (first :: second :: rest) = first :: keptLine (second :: rest) := by
  rw [keptLine, keptLine, Text.stripLast, Text.stripLast, List.getLast?_cons_cons]
  split_ifs
  · rfl
  · rfl

theorem lineBreaks_cons {char : Char} {rest : List Char}
    (apart : char = '\r' → rest.head? ≠ some '\n') :
    lineBreaks (char :: rest) = char :: lineBreaks rest := by
  rw [lineBreaks]
  rintro more rfl rfl
  exact apart rfl rfl

theorem lineBreaks_clean {text : List Char} (clean : '\n' ∉ text) : lineBreaks text = text := by
  induction text with
  | nil => rfl
  | cons char rest ih =>
      obtain ⟨-, later⟩ := not_or.mp (List.mem_cons.not.mp clean)
      rw [lineBreaks_cons fun _ first => later (List.mem_of_head? first), ih later]

/-- A carriage return before a newline belongs to the line break. -/
theorem lineBreaks_line {front : List Char} (clean : '\n' ∉ front) (rest : List Char) :
    lineBreaks (front ++ '\n' :: rest) = keptLine front ++ '\n' :: lineBreaks rest := by
  induction front with
  | nil => exact lineBreaks_cons nofun
  | cons char front ih =>
      obtain ⟨-, later⟩ := not_or.mp (List.mem_cons.not.mp clean)
      cases front with
      | nil =>
          by_cases returns : char = '\r'
          · rw [returns]
            rfl
          · have kept : keptLine [char] = [char] := by
              rw [keptLine, Text.stripLast, if_neg]
              · rfl
              · exact fun last => returns (Option.some.inj last)
            rw [kept, List.singleton_append, List.singleton_append,
              lineBreaks_cons fun same => absurd same returns]
            exact congrArg (char :: ·) (lineBreaks_cons nofun)
      | cons next front =>
          have other : (next :: front ++ '\n' :: rest).head? ≠ some '\n' := by
            intro first
            exact later (by rw [Option.some.inj first]; exact List.mem_cons_self)
          rw [List.cons_append, lineBreaks_cons fun _ => other, ih later, keptLine_cons,
            List.cons_append]

/-- A text that goes on is complete lines and a last line. -/
theorem follow_lineBreaks (lines : List (List Char)) (held : List Char) (clean : '\n' ∉ held)
    (text : List Char) :
    Lines.closed '\n' lines ++ lineBreaks (held ++ text) =
      Lines.closed '\n' (follow (lines, held) text).1 ++ (follow (lines, held) text).2 := by
  induction text using Lines.lineInduction '\n' generalizing lines held with
  | tail rest free =>
      rw [follow_clean _ free, lineBreaks_clean]
      rw [List.mem_append, not_or]
      exact ⟨clean, free⟩
  | line front rest free ih =>
      have whole : '\n' ∉ held ++ front := by
        rw [List.mem_append, not_or]
        exact ⟨clean, free⟩
      rw [follow_line _ free, ← ih _ _ List.not_mem_nil, ← List.append_assoc, lineBreaks_line whole,
        Lines.closed_append, List.nil_append, List.append_assoc]
      exact congrArg (_ ++ ·) (by simp [Lines.closed])

/-- No line of a view has a newline. -/
def View.Clean (view : View) : Prop :=
  (∀ group ∈ view.drains, Lines.Clean '\n' group) ∧ Lines.Clean '\n' view.now

theorem newline_not_mem_keptLine {line : List Char} (clean : '\n' ∉ line) :
    '\n' ∉ keptLine line := by
  rw [keptLine, Text.stripLast]
  split_ifs
  · exact fun member => clean (List.dropLast_subset _ member)
  · exact clean

theorem follow_clean_group {state : List (List Char) × List Char} (clean : Lines.Clean '\n' state)
    (text : List Char) : Lines.Clean '\n' (follow state text) := by
  induction text using List.reverseRecOn with
  | nil => exact clean
  | append_singleton text char ih =>
      rw [follow_concat, followChar]
      split_ifs with newline
      · refine ⟨?_, List.not_mem_nil⟩
        rw [List.forall_mem_append]
        exact ⟨ih.1, fun line member => by
          rw [List.mem_singleton.mp member]
          exact newline_not_mem_keptLine ih.2⟩
      · refine ⟨ih.1, ?_⟩
        rw [List.mem_append, List.mem_singleton, not_or]
        exact ⟨ih.2, fun same => newline same.symm⟩

theorem viewOf_clean (events : List Event) : (viewOf events).Clean := by
  induction events using List.reverseRecOn with
  | nil => exact ⟨nofun, nofun, List.not_mem_nil⟩
  | append_singleton events event ih =>
      rw [viewOf_concat]
      cases event with
      | push chunk => exact ⟨ih.1, follow_clean_group ih.2 _⟩
      | drain =>
          refine ⟨?_, nofun, ih.2.2⟩
          rw [View.step, List.forall_mem_append]
          exact ⟨ih.1, fun group member => by
            rw [List.mem_singleton.mp member]
            exact ih.2⟩

/-- Lines that are there already stay before the others. -/
theorem follow_prefix (lines : List (List Char)) (state : List (List Char) × List Char)
    (text : List Char) : follow (lines ++ state.1, state.2) text =
      (lines ++ (follow state text).1, (follow state text).2) := by
  induction text using List.reverseRecOn with
  | nil => rfl
  | append_singleton text char ih =>
      rw [follow_concat, follow_concat, ih, followChar, followChar]
      split_ifs
      · rw [List.append_assoc]
      · rfl

theorem follow_append (state : List (List Char) × List Char) (front rest : List Char) :
    follow state (front ++ rest) = follow (follow state front) rest := List.foldl_append

/-- The lines of all drains and of the buffer are those of the text that was pushed. -/
theorem viewOf_follow (events : List Event) : follow ([], []) (pushedText events) =
    ((viewOf events).drains.flatMap Prod.fst ++ (viewOf events).now.1, (viewOf events).now.2) := by
  induction events using List.reverseRecOn with
  | nil => rfl
  | append_singleton events event ih =>
      rw [pushedText_concat, follow_append, ih, viewOf_concat]
      cases event with
      | push chunk =>
          have text : pushedText [.push chunk] = scrubAnsi chunk := List.append_nil _
          rw [text, follow_prefix]
          rfl
      | drain =>
          rw [View.step, List.flatMap_append, List.flatMap_singleton, List.append_nil]
          rfl

theorem viewOf_text (events : List Event) : lineBreaks (pushedText events) =
    Lines.closed '\n' ((viewOf events).drains.flatMap Prod.fst ++ (viewOf events).now.1) ++
      (viewOf events).now.2 := by
  have text := follow_lineBreaks [] [] List.not_mem_nil (pushedText events)
  rw [viewOf_follow] at text
  exact text

/-- What all drains give with a last one is the text that was pushed. -/
def Partitions (events : List Event) : Prop :=
  ∃ terminal, Terminal.start.run (events ++ [.drain]) = .ok terminal ∧
    terminal.delivered.flatten = lineBreaks (pushedText events)

/-- Every drain before the last one comes at the start of a line, and complete lines are found by
one drain if the text ends within a line, and by none if it does not. -/
def OneReading (events : List Event) : Prop :=
  (∀ found ∈ (viewOf events).drains, found.2 = []) ∧
    (viewOf (events ++ [.drain])).drains.countP (fun found => found.1 ≠ []) =
      if (viewOf events).now.2 = [] then 0 else 1

theorem weight_filled (groups : List (List (List Char) × List Char)) :
    Clip.weight Lines.filled groups = groups.countP fun found => found.1 ≠ [] := by
  induction groups with
  | nil => rfl
  | cons group rest ih =>
      rw [Clip.weight_cons, ih, List.countP_cons, Nat.add_comm, Lines.filled]
      by_cases none : group.1 = []
      · rw [if_pos none, if_neg (by simp [none])]
      · rw [if_neg none, if_pos (by simp [none])]

/-- Within the limits of its buffer a terminal gives its text in pieces just when it is read so. -/
theorem partitions_iff {events : List Event} (within : WithinCaps events) :
    Partitions events ↔ OneReading events := by
  have last : viewOf (events ++ [.drain]) =
      ⟨(viewOf events).drains ++ [(viewOf events).now], [], (viewOf events).now.2⟩ :=
    viewOf_concat events .drain
  obtain ⟨bytes, done⟩ := within.run
  have ran : Terminal.start.run (events ++ [.drain]) =
      .ok ⟨⟨[], (viewOf events).now.2, 0⟩,
        ((viewOf events).drains ++ [(viewOf events).now]).map (Lines.joinGroup '\n')⟩ := by
    refine Except.foldlM_concat_ok_iff.mpr ⟨_, done, ?_⟩
    rw [Terminal.step, List.map_append]
    rfl
  have clean : ∀ group ∈ (viewOf events).drains ++ [(viewOf events).now],
      Lines.Clean '\n' group := by
    rw [List.forall_mem_append]
    refine ⟨(viewOf_clean events).1, fun group member => ?_⟩
    rw [List.mem_singleton.mp member]
    exact (viewOf_clean events).2
  have given : Partitions events ↔
      ((viewOf events).drains ++ [(viewOf events).now]).flatMap (Lines.joinGroup '\n') =
        Lines.closed '\n' (((viewOf events).drains ++ [(viewOf events).now]).flatMap Prod.fst) ++
          (viewOf events).now.2 := by
    rw [Partitions, viewOf_text, List.flatMap_append (f := Prod.fst), List.flatMap_singleton]
    constructor
    · rintro ⟨terminal, reached, whole⟩
      obtain rfl := Except.ok.inj (ran.symm.trans reached)
      exact whole
    · exact fun whole => ⟨_, ran, whole⟩
  rw [given, Lines.joinGroups_iff clean, OneReading, last, ← weight_filled]
  rfl

/-- A reading at the start of a line, and then the text goes on. -/
def twoReadings : List Event := [.push "one\r\n", .drain, .push "two"]

theorem partitions_iff_twoReadings :
    WithinCaps twoReadings ∧ (Partitions twoReadings ↔ OneReading twoReadings) := by
  have within : WithinCaps twoReadings := by
    have all : ∀ done ∈ twoReadings.inits, (viewOf done).now.1.length ≤ ringLines ∧
        byteLen (viewOf done).now.2 ≤ partialBytes := by decide
    exact fun done early => all done ((List.mem_inits done twoReadings).mpr early)
  exact ⟨within, partitions_iff within⟩

/-- A prompt is given by every drain, with a newline before it that nobody wrote. -/
theorem prompt_repeated : ¬ Partitions [.push "$ ", .drain] := by
  rintro ⟨terminal, ran, whole⟩
  have reached : Terminal.start.run ([.push "$ ", .drain] ++ [.drain]) =
      .ok ⟨⟨[], ['$', ' '], 0⟩, [['\n', '$', ' '], ['\n', '$', ' ']]⟩ := by rfl
  obtain rfl := Except.ok.inj (reached.symm.trans ran)
  exact absurd whole (by decide)

end Daemon.Pty
