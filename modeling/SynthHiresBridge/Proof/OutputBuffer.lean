import SynthHiresBridge.Daemon.PtyOps
import SynthHiresBridge.Data.Fallible
import Mathlib.Data.List.Induction

namespace Daemon.Pty

theorem byteLen_append (front rest : List Char) :
    byteLen (front ++ rest) = byteLen front + byteLen rest := Clip.weight_append _ _ _

/-- The line that goes on after some characters. -/
def lastLine (text : List Char) : List Char :=
  text.foldl (fun line char => if char = '\n' then [] else line ++ [char]) []

theorem lastLine_concat (text : List Char) (char : Char) :
    lastLine (text ++ [char]) = if char = '\n' then [] else lastLine text ++ [char] := by
  rw [lastLine, List.foldl_append]
  rfl

theorem lastLine_clean {text : List Char} (clean : '\n' ∉ text) : lastLine text = text := by
  induction text using List.reverseRecOn with
  | nil => rfl
  | append_singleton text char ih =>
      rw [List.mem_append, List.mem_singleton, not_or] at clean
      rw [lastLine_concat, if_neg (Ne.symm clean.2), ih clean.1]

/-- Text without escapes and control noise is shown as it is. -/
theorem scrubFrom_plain {chars : List Char}
    (plain : ∀ char ∈ chars, Scrubber.text.shows char = true) : scrubFrom .text chars = chars := by
  induction chars with
  | nil => rfl
  | cons char rest ih =>
      obtain ⟨shown, later⟩ := List.forall_mem_cons.mp plain
      have stays : Scrubber.text.next char = .text := by
        have other : char ≠ '\x1b' := by
          rintro rfl
          cases shown
        exact if_neg other
      rw [scrubFrom, if_pos shown, stays, ih later]

/-- A line has a character boundary where the limit of bytes before its end begins. -/
def Cuttable (line : List Char) : Prop :=
  ∃ front rest, line = front ++ rest ∧ byteLen rest = partialBytes

theorem drainFront_ok_iff {cut : Nat} {chars rest : List Char} :
    drainFront cut chars = .ok rest ↔ ∃ front, chars = front ++ rest ∧ byteLen front = cut := by
  induction chars generalizing cut with
  | nil =>
      cases cut with
      | zero =>
          rw [drainFront]
          constructor
          · intro same
            obtain rfl := Except.ok.inj same
            exact ⟨[], rfl, rfl⟩
          · rintro ⟨front, made, -⟩
            rw [(List.append_eq_nil_iff.mp made.symm).2]
      | succ cut =>
          rw [drainFront]
          refine iff_of_false nofun ?_
          rintro ⟨front, made, long⟩
          rw [(List.append_eq_nil_iff.mp made.symm).1] at long
          cases long
  | cons char chars ih =>
      have size := char.utf8Size_pos
      cases cut with
      | zero =>
          rw [drainFront]
          constructor
          · intro same
            obtain rfl := Except.ok.inj same
            exact ⟨[], rfl, rfl⟩
          · rintro ⟨front, made, none⟩
            have short := Clip.solid_utf8Size.length_le front
            rw [← byteLen, none] at short
            rw [List.length_eq_zero_iff.mp (Nat.le_zero.mp short)] at made
            rw [made, List.nil_append]
      | succ cut =>
          rw [drainFront]
          split_ifs with fits
          · rw [ih]
            constructor
            · rintro ⟨front, rfl, long⟩
              refine ⟨char :: front, rfl, ?_⟩
              rw [byteLen, Clip.weight_cons, ← byteLen, long]
              omega
            · rintro ⟨front, made, long⟩
              cases front with
              | nil => cases long
              | cons first front =>
                  obtain ⟨rfl, rfl⟩ := List.cons.inj made
                  rw [byteLen, Clip.weight_cons, ← byteLen] at long
                  exact ⟨front, rfl, by omega⟩
          · refine iff_of_false nofun ?_
            rintro ⟨front, made, long⟩
            cases front with
            | nil => cases long
            | cons first front =>
                obtain ⟨rfl, rfl⟩ := List.cons.inj made
                rw [byteLen, Clip.weight_cons] at long
                omega

/-- The part of a line that a buffer holds is all of it, or it is its end and no shorter than the
limit. -/
structure Tail (line held : List Char) : Prop where
  ending : held <:+ line
  enough : held = line ∨ partialBytes ≤ byteLen held

theorem Tail.concat {line held : List Char} (tail : Tail line held) (char : Char) :
    Tail (line ++ [char]) (held ++ [char]) := by
  refine ⟨?_, ?_⟩
  · obtain ⟨front, rfl⟩ := tail.ending
    exact ⟨front, by rw [List.append_assoc]⟩
  · rcases tail.enough with rfl | enough
    · exact .inl rfl
    · right
      rw [byteLen_append]
      exact Nat.le_add_right_of_le enough

/-- An end of a line with as many bytes as the limit is an end of what is held. -/
theorem Tail.cuttable_iff {line held : List Char} (tail : Tail line held)
    (large : partialBytes ≤ byteLen held) : Cuttable line ↔ Cuttable held := by
  obtain ⟨lead, rfl⟩ := tail.ending
  constructor
  · rintro ⟨front, rest, made, long⟩
    rcases List.suffix_or_suffix_of_suffix ⟨lead, rfl⟩ ⟨front, made.symm⟩ with ⟨more, rfl⟩ | ⟨more, rfl⟩
    · have none : byteLen more = 0 := by
        rw [byteLen_append] at long
        omega
      have short := Clip.solid_utf8Size.length_le more
      rw [← byteLen, none] at short
      rw [List.length_eq_zero_iff.mp (Nat.le_zero.mp short), List.nil_append] at long
      exact ⟨[], held, rfl, long⟩
    · exact ⟨more, rest, rfl, long⟩
  · rintro ⟨front, rest, rfl, long⟩
    exact ⟨lead ++ front, rest, by rw [List.append_assoc], long⟩

/-- A line stays within the limit, or it can be cut to the limit. -/
def Fits (line : List Char) : Prop := byteLen line ≤ partialBytes ∨ Cuttable line

/-- A cut succeeds just when the whole line fits, and then no more than the limit is held. -/
theorem Tail.capPartial {line : List Char} {buffer : BufferState}
    (tail : Tail line buffer.partialLine) :
    (Fits line → ∃ kept, buffer.capPartial = .ok { buffer with partialLine := kept } ∧
      Tail line kept ∧ byteLen kept ≤ partialBytes) ∧
    (¬ Fits line → ∃ panic, buffer.capPartial = .error panic) := by
  rw [BufferState.capPartial]
  split_ifs with large
  · have small : ¬ byteLen line ≤ partialBytes := by
      obtain ⟨front, made⟩ := tail.ending
      rw [← made, byteLen_append]
      omega
    rw [Fits, or_iff_right small, tail.cuttable_iff (Nat.le_of_lt large)]
    constructor
    · rintro ⟨front, rest, made, long⟩
      have cut : drainFront (byteLen buffer.partialLine - partialBytes) buffer.partialLine =
          .ok rest := by
        refine drainFront_ok_iff.mpr ⟨front, made, ?_⟩
        rw [made, byteLen_append]
        omega
      rw [cut]
      refine ⟨rest, rfl, ⟨?_, .inr (Nat.le_of_eq long.symm)⟩, Nat.le_of_eq long⟩
      exact List.IsSuffix.trans ⟨front, made.symm⟩ tail.ending
    · intro none
      cases cut : drainFront (byteLen buffer.partialLine - partialBytes) buffer.partialLine with
      | error panic => exact ⟨panic, rfl⟩
      | ok rest =>
          obtain ⟨front, made, long⟩ := drainFront_ok_iff.mp cut
          refine absurd ⟨front, rest, made, ?_⟩ none
          rw [made, byteLen_append] at long
          rw [made, byteLen_append] at large
          omega
  · refine ⟨fun _ => ⟨_, rfl, tail, Nat.not_lt.mp large⟩, fun none => absurd ?_ none⟩
    rcases tail.enough with same | enough
    · rw [← same]
      exact .inl (Nat.not_lt.mp large)
    · obtain ⟨front, made⟩ := tail.ending
      exact .inr ⟨front, buffer.partialLine, made.symm, Nat.le_antisymm (Nat.not_lt.mp large) enough⟩

/-- What a buffer holds after some text. -/
structure Sound (text : List Char) (buffer : BufferState) : Prop where
  tail : Tail (lastLine text) buffer.partialLine
  counted : Clip.weight (fun line => byteLen line + 1) buffer.lines ≤ buffer.bytes
  few : buffer.lines.length ≤ ringLines

theorem byteLen_stripLast (line : List Char) :
    byteLen ((Text.stripLast '\r' line).getD line) ≤ byteLen line := by
  rw [Text.stripLast]
  split_ifs
  · exact Clip.weight_le (List.dropLast_prefix line)
  · exact Nat.le_refl _

/-- Lines that leave the ring were counted. -/
theorem evict_ok (buffer : BufferState)
    (counted : Clip.weight (fun line => byteLen line + 1) buffer.lines ≤ buffer.bytes) :
    ∃ next, buffer.evict = .ok next ∧ next.partialLine = buffer.partialLine ∧
      Clip.weight (fun line => byteLen line + 1) next.lines ≤ next.bytes ∧
      next.lines.length ≤ ringLines := by
  rw [BufferState.evict]
  split_ifs with full
  · have parts := List.take_append_drop (buffer.lines.length - ringLines) buffer.lines
    rw [← parts, Clip.weight_append] at counted
    have enough : Clip.weight (fun line => byteLen line + 1)
        (buffer.lines.take (buffer.lines.length - ringLines)) ≤ buffer.bytes := by omega
    dsimp only
    rw [if_pos enough]
    refine ⟨_, rfl, rfl, by dsimp only; omega, ?_⟩
    rw [List.length_drop]
    omega
  · exact ⟨buffer, rfl, rfl, counted, Nat.not_lt.mp full⟩

theorem Sound.pushChar {text : List Char} {buffer : BufferState} (sound : Sound text buffer)
    (char : Char) :
    ∃ next, buffer.pushChar char = .ok next ∧ Sound (text ++ [char]) next := by
  rw [BufferState.pushChar]
  split_ifs with newline
  · have counted : Clip.weight (fun line => byteLen line + 1)
        (buffer.lines ++ [(Text.stripLast '\r' buffer.partialLine).getD buffer.partialLine]) ≤
        buffer.bytes + (byteLen buffer.partialLine + 1) := by
      have stripped := byteLen_stripLast buffer.partialLine
      have before := sound.counted
      rw [Clip.weight_append, Clip.weight_cons, Clip.weight_nil]
      omega
    obtain ⟨next, done, held, after, few⟩ := evict_ok ⟨_, [], _⟩ counted
    refine ⟨next, done, ?_, after, few⟩
    rw [held, lastLine_concat, if_pos newline]
    exact ⟨List.suffix_refl _, .inl rfl⟩
  · refine ⟨_, rfl, ?_, sound.counted, sound.few⟩
    rw [lastLine_concat, if_neg newline]
    exact sound.tail.concat char

theorem Sound.pushChars {text : List Char} {buffer : BufferState} (sound : Sound text buffer)
    (chars : List Char) :
    ∃ next, buffer.pushChars chars = .ok next ∧ Sound (text ++ chars) next := by
  induction chars using List.reverseRecOn with
  | nil => exact ⟨buffer, rfl, by rwa [List.append_nil]⟩
  | append_singleton chars char ih =>
      obtain ⟨middle, done, held⟩ := ih
      obtain ⟨next, last, after⟩ := held.pushChar char
      refine ⟨next, Except.foldlM_concat_ok_iff.mpr ⟨middle, done, last⟩, ?_⟩
      rw [← List.append_assoc]
      exact after

/-- A push succeeds just when the line that goes on after it fits. -/
theorem Sound.push_iff {text : List Char} {buffer : BufferState} (sound : Sound text buffer)
    (chunk : String) :
    (∃ next, buffer.push chunk = .ok next) ↔ Fits (lastLine (text ++ scrubAnsi chunk)) := by
  obtain ⟨middle, done, held⟩ := sound.pushChars (scrubAnsi chunk)
  rw [BufferState.push, done]
  constructor
  · rintro ⟨next, cut⟩
    by_contra long
    obtain ⟨panic, failed⟩ := held.tail.capPartial.2 long
    cases failed.symm.trans cut
  · intro fits
    obtain ⟨kept, cut, -⟩ := held.tail.capPartial.1 fits
    exact ⟨_, cut⟩

theorem Sound.pushed {text : List Char} {buffer next : BufferState} (sound : Sound text buffer)
    {chunk : String} (done : buffer.push chunk = .ok next) :
    Sound (text ++ scrubAnsi chunk) next ∧ byteLen next.partialLine ≤ partialBytes := by
  have fits := (sound.push_iff chunk).mp ⟨next, done⟩
  obtain ⟨middle, shown, held⟩ := sound.pushChars (scrubAnsi chunk)
  obtain ⟨kept, cut, tail, short⟩ := held.tail.capPartial.1 fits
  rw [BufferState.push, shown] at done
  obtain rfl := Except.ok.inj (cut.symm.trans done)
  exact ⟨⟨tail, held.counted, held.few⟩, short⟩

/-- The text that the pushes of some events have shown. -/
def pushedText (events : List Event) : List Char :=
  events.flatMap fun event => match event with
    | .push chunk => scrubAnsi chunk
    | .drain => []

theorem pushedText_push (chunk : String) (rest : List Event) :
    pushedText (.push chunk :: rest) = scrubAnsi chunk ++ pushedText rest := rfl

theorem pushedText_concat (events : List Event) (event : Event) :
    pushedText (events ++ [event]) = pushedText events ++ pushedText [event] := List.flatMap_append

/-- Every line that goes on after a push fits. -/
def AllFit (events : List Event) : Prop :=
  ∀ before chunk after, events = before ++ .push chunk :: after →
    Fits (lastLine (pushedText (before ++ [.push chunk])))

theorem AllFit.front {front rest : List Event} (all : AllFit (front ++ rest)) : AllFit front := by
  intro before chunk after made
  refine all before chunk (after ++ rest) ?_
  rw [made, List.append_assoc, List.cons_append]

/-- The state that a buffer should be in after some events. -/
structure Bounded (buffer : BufferState) : Prop where
  few : buffer.lines.length ≤ ringLines
  short : byteLen buffer.partialLine ≤ partialBytes
  counted : Clip.weight (fun line => byteLen line + 1) buffer.lines ≤ buffer.bytes

theorem Sound.bounded {text : List Char} {buffer : BufferState} (sound : Sound text buffer)
    (short : byteLen buffer.partialLine ≤ partialBytes) : Bounded buffer :=
  ⟨sound.few, short, sound.counted⟩

/-- What a terminal holds is sound and bounded wherever a run has come. -/
theorem run_sound {events : List Event} {terminal : Terminal}
    (ran : Terminal.start.run events = .ok terminal) :
    Sound (pushedText events) terminal.buffer ∧ Bounded terminal.buffer := by
  induction events using List.reverseRecOn generalizing terminal with
  | nil =>
      obtain rfl := Except.ok.inj ran
      have start : Sound [] BufferState.empty :=
        ⟨⟨List.suffix_refl _, .inl rfl⟩, Nat.zero_le _, Nat.zero_le _⟩
      exact ⟨start, start.bounded (Nat.zero_le _)⟩
  | append_singleton events event ih =>
      obtain ⟨middle, front, stepped⟩ := Except.foldlM_concat_ok_iff.mp ran
      obtain ⟨sound, bounded⟩ := ih front
      rw [pushedText_concat]
      cases event with
      | push chunk =>
          have text : pushedText [.push chunk] = scrubAnsi chunk := List.append_nil _
          obtain ⟨next, pushed, rfl⟩ := Except.map_ok_iff.mp stepped
          obtain ⟨after, short⟩ := sound.pushed pushed
          rw [text]
          exact ⟨after, after.bounded short⟩
      | drain =>
          have none : pushedText [.drain] = [] := rfl
          obtain rfl := Except.ok.inj stepped
          rw [none, List.append_nil]
          have after : Sound (pushedText events) middle.buffer.drain.2 :=
            ⟨sound.tail, Nat.zero_le _, Nat.zero_le _⟩
          exact ⟨after, after.bounded bounded.short⟩

theorem AllFit.run {events : List Event} (all : AllFit events) :
    ∃ terminal, Terminal.start.run events = .ok terminal := by
  induction events using List.reverseRecOn with
  | nil => exact ⟨.start, rfl⟩
  | append_singleton events event ih =>
      obtain ⟨terminal, done⟩ := ih all.front
      cases event with
      | push chunk =>
          have fits := all events chunk [] rfl
          have text : pushedText [.push chunk] = scrubAnsi chunk := List.append_nil _
          rw [pushedText_concat, text] at fits
          obtain ⟨next, pushed⟩ := ((run_sound done).1.push_iff chunk).mpr fits
          exact ⟨_, Except.foldlM_concat_ok_iff.mpr
            ⟨terminal, done, Except.map_ok_iff.mpr ⟨next, pushed, rfl⟩⟩⟩
      | drain => exact ⟨_, Except.foldlM_concat_ok_iff.mpr ⟨terminal, done, rfl⟩⟩

/-- The buffer holds its limits and no push panics, when every line that goes on after a push fits:
it has at most 16 KiB, or there is a character boundary 16 KiB before its end. -/
theorem run_bounded_iff (events : List Event) :
    (∀ done, done <+: events → ∃ terminal, Terminal.start.run done = .ok terminal ∧
      Bounded terminal.buffer) ↔ AllFit events := by
  constructor
  · intro runs before chunk after made
    obtain ⟨terminal, ran, -⟩ := runs (before ++ [.push chunk]) ⟨after, by rw [made]; simp⟩
    obtain ⟨middle, front, stepped⟩ := Except.foldlM_concat_ok_iff.mp ran
    obtain ⟨next, pushed, -⟩ := Except.map_ok_iff.mp stepped
    have text : pushedText [.push chunk] = scrubAnsi chunk := List.append_nil _
    rw [pushedText_concat, text]
    exact ((run_sound front).1.push_iff chunk).mp ⟨next, pushed⟩
  · rintro all done ⟨rest, rfl⟩
    obtain ⟨terminal, ran⟩ := all.front.run
    exact ⟨terminal, ran, (run_sound ran).2⟩

/-- A prompt that begins with one wide character and goes on for 16 KiB. -/
def widePrompt : List Event :=
  [.push (String.ofList ('\u00e9' :: List.replicate 8190 'a')),
    .push (String.ofList (List.replicate 8192 'a'))]

theorem widePrompt_text : pushedText widePrompt ++ scrubAnsi "a" = '\u00e9' :: List.replicate 16383 'a' := by
  have plain : ∀ count, ∀ char ∈ List.replicate count 'a', Scrubber.text.shows char = true := by
    intro count char member
    rw [List.eq_of_mem_replicate member]
    rfl
  have wide : Scrubber.text.shows '\u00e9' = true := rfl
  have last : scrubAnsi "a" = ['a'] := rfl
  have none : pushedText [] = [] := rfl
  rw [widePrompt, pushedText_push, pushedText_push, none, List.append_nil, last, scrubAnsi, scrubAnsi,
    String.toList_ofList, String.toList_ofList,
    scrubFrom_plain (List.forall_mem_cons.mpr ⟨wide, plain _⟩), scrubFrom_plain (plain _),
    List.cons_append, List.cons_append, List.replicate_append_replicate, ← List.replicate_succ']

/-- The wide character lies across the limit. -/
theorem widePrompt_long : ¬ Fits (lastLine (pushedText widePrompt ++ scrubAnsi "a")) := by
  have clean : '\n' ∉ '\u00e9' :: List.replicate 16383 'a' := by
    rw [List.mem_cons, not_or]
    exact ⟨by decide, fun member => absurd (List.eq_of_mem_replicate member) (by decide)⟩
  have two : Char.utf8Size '\u00e9' = 2 := rfl
  have one : Char.utf8Size 'a' = 1 := rfl
  have long : byteLen ('\u00e9' :: List.replicate 16383 'a') = 16385 := by
    rw [byteLen, Clip.weight_cons, Clip.weight_replicate, two, one]
  rw [widePrompt_text, lastLine_clean clean]
  rintro (short | ⟨front, rest, made, limit⟩)
  · rw [long] at short
    exact absurd short (by decide)
  · have parts : byteLen front + partialBytes = 16385 := by
      rw [← limit, ← byteLen_append, ← made, long]
    have four : partialBytes = 16384 := rfl
    cases front with
    | nil =>
        rw [four] at parts
        exact absurd parts (by decide)
    | cons first front =>
        obtain rfl := (List.cons.inj made).1
        rw [byteLen, Clip.weight_cons, two] at parts
        omega

/-- The prompt makes the next push panic. -/
theorem widePrompt_panics : ¬ ∀ done, done <+: widePrompt ++ [.push "a"] →
    ∃ terminal, Terminal.start.run done = .ok terminal ∧ Bounded terminal.buffer := by
  intro runs
  obtain ⟨terminal, ran, -⟩ := runs _ (List.prefix_refl _)
  obtain ⟨middle, front, stepped⟩ := Except.foldlM_concat_ok_iff.mp ran
  obtain ⟨next, pushed, -⟩ := Except.map_ok_iff.mp stepped
  exact widePrompt_long (((run_sound front).1.push_iff "a").mp ⟨next, pushed⟩)

end Daemon.Pty
