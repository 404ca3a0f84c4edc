import SynthHiresBridge.Data.DecodeCuts
import SynthHiresBridge.Proof.TerminalDrains

namespace Daemon.Pty

def Scrubber.after (scrubber : Scrubber) (chars : List Char) : Scrubber :=
  chars.foldl Scrubber.next scrubber

theorem scrubFrom_append (scrubber : Scrubber) (front rest : List Char) :
    scrubFrom scrubber (front ++ rest) =
      scrubFrom scrubber front ++ scrubFrom (scrubber.after front) rest := by
  induction front generalizing scrubber with
  | nil => rfl
  | cons char front ih =>
      rw [List.cons_append, scrubFrom, scrubFrom, Scrubber.after, List.foldl_cons, ← Scrubber.after]
      split_ifs
      · rw [ih, List.cons_append]
      · exact ih _

/-- After a lone escape, nothing is shown until control noise or the end. -/
def Idle : List Char → Prop
  | [] => True
  | char :: rest => isNoise char = true ∨ char = '\x1b' ∧ Idle rest

/-- What comes next looks the same as from outside of escape sequences. -/
def Scrubber.Settled : Scrubber → List Char → Prop
  | .text, _ => True
  | .escape, chars => Idle chars
  | .csi, chars => chars = []

theorem isNoise_apart {char : Char} (noise : isNoise char = true) : char ≠ '\x1b' ∧ char ≠ '[' := by
  constructor
  · rintro rfl
    exact absurd noise (by decide)
  · rintro rfl
    exact absurd noise (by decide)

theorem Scrubber.Settled.same {scrubber : Scrubber} {chars : List Char}
    (settled : scrubber.Settled chars) : scrubFrom scrubber chars = scrubFrom .text chars := by
  cases scrubber with
  | text => rfl
  | csi =>
      obtain rfl : chars = [] := settled
      rfl
  | escape =>
      induction chars with
      | nil => rfl
      | cons char rest ih =>
          have hidden : Scrubber.escape.shows char = false := by
            rw [Scrubber.shows]
            exact decide_eq_false fun all => Scrubber.noConfusion all.1
          rcases settled with noise | ⟨rfl, later⟩
          · obtain ⟨other, open_⟩ := isNoise_apart noise
            have quiet : Scrubber.text.shows char = false := by
              rw [Scrubber.shows]
              exact decide_eq_false fun all => all.2.2 noise
            have ends : Scrubber.escape.next char = .text := if_neg open_
            have stays : Scrubber.text.next char = .text := if_neg other
            rw [scrubFrom, hidden, if_neg Bool.false_ne_true, ends, scrubFrom, quiet,
              if_neg Bool.false_ne_true, stays]
          · exact (ih later).symm

theorem Scrubber.Settled.front {scrubber : Scrubber} {front rest : List Char}
    (settled : scrubber.Settled (front ++ rest)) : scrubber.Settled front := by
  cases scrubber with
  | text => trivial
  | csi => exact (List.append_eq_nil_iff.mp settled).1
  | escape =>
      induction front with
      | nil => trivial
      | cons char front ih =>
          rcases settled with noise | ⟨same, later⟩
          · exact .inl noise
          · exact .inr ⟨same, ih later⟩

/-- What is shown of the bytes of one read. -/
def shown (bytes : List UInt8) : List Char := scrubAnsi (Text.lossy bytes)

/-- A read ends outside of characters and of escape sequences. -/
structure Quiet (chunk rest : List UInt8) : Prop where
  character : ¬ Text.Cuts chunk rest
  escape : (Scrubber.text.after (Text.lossy chunk).toList).Settled (Text.lossy rest).toList

def QuietReads (reads : List (List UInt8)) : Prop :=
  ∀ done chunk later, reads = done ++ chunk :: later → Quiet chunk later.flatten

namespace QuietReads

theorem rest (done : List (List UInt8)) {later : List (List UInt8)}
    (quiet : QuietReads (done ++ later)) :
    QuietReads later := by
  intro front chunk back made
  exact quiet (done ++ front) chunk back (by rw [made, List.append_assoc])

theorem lossy {reads : List (List UInt8)} (quiet : QuietReads reads) :
    (Text.lossy reads.flatten).toList = reads.flatMap fun chunk => (Text.lossy chunk).toList :=
  Text.lossy_flatten fun done chunk later made => (quiet done chunk later made).character

theorem front {reads later : List (List UInt8)} (quiet : QuietReads (reads ++ later)) :
    QuietReads reads := by
  have apart {done : List (List UInt8)} {chunk : List UInt8} {rest : List (List UInt8)}
      (made : reads = done ++ chunk :: rest) : Quiet chunk (rest ++ later).flatten := by
    refine quiet done chunk (rest ++ later) ?_
    rw [made, List.append_assoc, List.cons_append]
  intro done chunk rest made
  have here := apart made
  have after : QuietReads (rest ++ later) := by
    refine QuietReads.rest (done ++ [chunk]) ?_
    rwa [← List.append_assoc, List.append_assoc done, List.singleton_append, ← made]
  have before : (Text.lossy rest.flatten).toList =
      rest.flatMap fun chunk => (Text.lossy chunk).toList := by
    refine Text.lossy_flatten fun early part late same cuts => ?_
    refine (after early part (late ++ later) ?_).character ?_
    · rw [same, List.append_assoc, List.cons_append]
    · rw [List.flatten_append]
      exact cuts.after _
  refine ⟨fun cuts => here.character ?_, ?_⟩
  · rw [List.flatten_append]
    exact cuts.after _
  · have settled := here.escape
    rw [after.lossy, List.flatMap_append, ← before] at settled
    exact settled.front

/-- Quiet reads show together what they show one by one. -/
theorem shown {reads : List (List UInt8)} (quiet : QuietReads reads) :
    Pty.shown reads.flatten = reads.flatMap Pty.shown := by
  induction reads with
  | nil => rfl
  | cons chunk later ih =>
      have here := quiet [] chunk later rfl
      have next : QuietReads later := QuietReads.rest [chunk] quiet
      rw [List.flatten_cons, List.flatMap_cons, Pty.shown, scrubAnsi, Text.lossy_cut here.character,
        scrubFrom_append, here.escape.same, ← ih next]
      rfl

end QuietReads

/-- The line that goes on after each read is within its limit, or it stays the last one and can be
cut. -/
def HoldsLines (reads : List (List UInt8)) : Prop :=
  ∀ done later, reads = done ++ later → Fits (lastLine (shown done.flatten)) ∧
    (byteLen (lastLine (shown done.flatten)) ≤ partialBytes ∨ '\n' ∉ shown later.flatten)

theorem HoldsLines.front {reads : List (List UInt8)} {last : List UInt8}
    (holds : HoldsLines (reads ++ [last])) (quiet : QuietReads (reads ++ [last])) :
    HoldsLines reads := by
  intro done later made
  have whole : reads ++ [last] = done ++ (later ++ [last]) := by rw [made, List.append_assoc]
  obtain ⟨fits, line⟩ := holds done (later ++ [last]) whole
  refine ⟨fits, line.imp_right fun clean => ?_⟩
  rw [whole] at quiet
  have after := quiet.rest done
  rw [after.shown, List.flatMap_append, List.mem_append, not_or, ← after.front.shown] at clean
  exact clean.1

theorem pushChars_partial {buffer next : BufferState} {chars : List Char}
    (done : buffer.pushChars chars = .ok next) : next.partialLine =
      chars.foldl (fun line char => if char = '\n' then [] else line ++ [char]) buffer.partialLine := by
  induction chars using List.reverseRecOn generalizing next with
  | nil =>
      obtain rfl := Except.ok.inj done
      rfl
  | append_singleton chars char ih =>
      obtain ⟨middle, front, last⟩ := Except.foldlM_concat_ok_iff.mp done
      rw [List.foldl_append, ← ih front, List.foldl_cons, List.foldl_nil]
      rw [BufferState.pushChar] at last
      split_ifs at last ⊢ with newline
      · rw [BufferState.evict] at last
        dsimp only at last
        split_ifs at last
        · exact (congrArg BufferState.partialLine (Except.ok.inj last)).symm
        · exact (congrArg BufferState.partialLine (Except.ok.inj last)).symm
      · exact (congrArg BufferState.partialLine (Except.ok.inj last)).symm

/-- Text without a newline goes to the line that goes on. -/
theorem pushChars_clean (buffer : BufferState) {chars : List Char} (clean : '\n' ∉ chars) :
    buffer.pushChars chars = .ok { buffer with partialLine := buffer.partialLine ++ chars } := by
  induction chars using List.reverseRecOn with
  | nil =>
      rw [List.append_nil]
      rfl
  | append_singleton chars char ih =>
      rw [List.mem_append, List.mem_singleton, not_or] at clean
      refine Except.foldlM_concat_ok_iff.mpr ⟨_, ih clean.1, ?_⟩
      rw [BufferState.pushChar, if_neg (Ne.symm clean.2), List.append_assoc]

theorem Tail.append {line held : List Char} (tail : Tail line held) (more : List Char) :
    Tail (line ++ more) (held ++ more) := by
  induction more using List.reverseRecOn with
  | nil => rwa [List.append_nil, List.append_nil]
  | append_singleton more char ih =>
      rw [← List.append_assoc, ← List.append_assoc]
      exact ih.concat char

/-- A line has one end that is held within the limit. -/
theorem Tail.unique {line held other : List Char} (one : Tail line held) (two : Tail line other)
    (short : byteLen held ≤ partialBytes) (also : byteLen other ≤ partialBytes) : held = other := by
  have same : byteLen held = byteLen other := by
    rcases one.enough with rfl | enough
    · obtain ⟨front, made⟩ := two.ending
      have parts := congrArg byteLen made
      rw [byteLen_append] at parts
      rcases two.enough with rfl | more
      · rfl
      · omega
    · rcases two.enough with rfl | more
      · obtain ⟨front, made⟩ := one.ending
        have parts := congrArg byteLen made
        rw [byteLen_append] at parts
        omega
      · omega
  have none (front : List Char) (light : byteLen front = 0) : front = [] := by
    have few := Clip.solid_utf8Size.length_le front
    rw [← byteLen, light] at few
    exact List.length_eq_zero_iff.mp (Nat.le_zero.mp few)
  rcases List.suffix_or_suffix_of_suffix one.ending two.ending with ⟨front, made⟩ | ⟨front, made⟩
  · have parts := congrArg byteLen made
    rw [byteLen_append] at parts
    rw [← made, none front (by omega), List.nil_append]
  · have parts := congrArg byteLen made
    rw [byteLen_append] at parts
    rw [← made, none front (by omega), List.nil_append]

/-- A buffer with the complete lines of some text and an end of its last line. -/
structure Follows (text : List Char) (buffer : BufferState) : Prop where
  whole : ∃ whole, BufferState.empty.pushChars text = .ok whole ∧
    buffer = { whole with partialLine := buffer.partialLine }
  tail : Tail (lastLine text) buffer.partialLine
  short : byteLen buffer.partialLine ≤ partialBytes

theorem Follows.unique {text : List Char} {buffer other : BufferState} (one : Follows text buffer)
    (two : Follows text other) : buffer = other := by
  obtain ⟨whole, done, made⟩ := one.whole
  obtain ⟨again, also, same⟩ := two.whole
  obtain rfl := Except.ok.inj (done.symm.trans also)
  rw [made, same, one.tail.unique two.tail one.short two.short]

theorem Follows.empty : Follows [] BufferState.empty :=
  ⟨⟨.empty, rfl, rfl⟩, ⟨List.suffix_refl _, .inl rfl⟩, Nat.zero_le _⟩

/-- A push goes on from some text, when its line was not cut or is not ended. -/
theorem Follows.push {text : List Char} {buffer : BufferState} (follows : Follows text buffer)
    (chunk : String) (line : byteLen (lastLine text) ≤ partialBytes ∨ '\n' ∉ scrubAnsi chunk)
    (fits : Fits (lastLine (text ++ scrubAnsi chunk))) :
    ∃ next, buffer.push chunk = .ok next ∧ Follows (text ++ scrubAnsi chunk) next := by
  obtain ⟨whole, done, made⟩ := follows.whole
  have last : whole.partialLine = lastLine text := pushChars_partial done
  have start : Sound [] BufferState.empty :=
    ⟨⟨List.suffix_refl _, .inl rfl⟩, Nat.zero_le _, Nat.zero_le _⟩
  obtain ⟨later, ran, -⟩ := start.pushChars (text ++ scrubAnsi chunk)
  obtain ⟨again, first, second⟩ := Except.foldlM_append_ok_iff.mp ran
  obtain rfl := Except.ok.inj (done.symm.trans first)
  have ending : later.partialLine = lastLine (text ++ scrubAnsi chunk) := pushChars_partial ran
  have middle : ∃ shown, buffer.pushChars (scrubAnsi chunk) = .ok shown ∧
      shown = { later with partialLine := shown.partialLine } ∧
      Tail (lastLine (text ++ scrubAnsi chunk)) shown.partialLine := by
    by_cases clean : '\n' ∈ scrubAnsi chunk
    · have held : buffer = whole := by
        have small := line.resolve_right (not_not.mpr clean)
        have same := follows.tail.unique ⟨List.suffix_refl _, .inl rfl⟩ follows.short small
        rw [made, same, ← last]
      refine ⟨later, held ▸ second, rfl, ?_⟩
      rw [ending]
      exact ⟨List.suffix_refl _, .inl rfl⟩
    · have step := pushChars_clean whole clean
      obtain rfl := Except.ok.inj (step.symm.trans second)
      refine ⟨_, pushChars_clean buffer clean, by rw [made], ?_⟩
      rw [← ending, last]
      exact follows.tail.append _
  obtain ⟨shown, pushed, same, tail⟩ := middle
  obtain ⟨kept, cut, held, short⟩ := tail.capPartial.1 fits
  refine ⟨_, Except.bind_ok_iff.mpr ⟨shown, pushed, cut⟩, ⟨later, ran, ?_⟩, held, short⟩
  rw [same]

/-- Reads one by one lead to the buffer of one read of all their bytes. -/
def Agrees (reads : List (List UInt8)) : Prop :=
  ∃ buffer, reads.foldlM BufferState.read BufferState.empty = .ok buffer ∧
    BufferState.empty.read reads.flatten = .ok buffer

theorem QuietReads.follows {reads : List (List UInt8)} (quiet : QuietReads reads)
    (holds : HoldsLines reads) : ∃ buffer, reads.foldlM BufferState.read BufferState.empty = .ok buffer ∧
      Follows (Pty.shown reads.flatten) buffer := by
  induction reads using List.reverseRecOn with
  | nil => exact ⟨.empty, rfl, Follows.empty⟩
  | append_singleton reads last ih =>
      obtain ⟨buffer, done, follows⟩ := ih quiet.front (holds.front quiet)
      have line := (holds reads [last] rfl).2
      have fits := (holds (reads ++ [last]) [] (List.append_nil _).symm).1
      have text : Pty.shown (reads ++ [last]).flatten =
          Pty.shown reads.flatten ++ scrubAnsi (Text.lossy last) := by
        rw [quiet.shown, List.flatMap_append, ← quiet.front.shown, List.flatMap_singleton]
        rfl
      rw [List.flatten_singleton] at line
      rw [text] at fits ⊢
      obtain ⟨next, pushed, after⟩ := follows.push _ line fits
      exact ⟨next, Except.foldlM_concat_ok_iff.mpr ⟨buffer, done, pushed⟩, after⟩

/-- Quiet reads do not matter, as long as no line is cut that goes on to its end. -/
theorem QuietReads.agrees {reads : List (List UInt8)} (quiet : QuietReads reads)
    (holds : HoldsLines reads) : Agrees reads := by
  obtain ⟨buffer, done, follows⟩ := quiet.follows holds
  obtain ⟨fits, -⟩ := holds reads [] (List.append_nil _).symm
  obtain ⟨whole, pushed, after⟩ := Follows.empty.push (Text.lossy reads.flatten)
    (.inl (Nat.zero_le _)) fits
  rw [follows.unique after] at done
  exact ⟨whole, done, pushed⟩

/-- Bytes that are control noise or an escape. -/
def idleBytes : List UInt8 := [0x1b, 0x07, 0x08, 0x0b, 0x0c]

theorem toNat_byteChar {byte : UInt8} {code : Nat} (same : (Text.byteChar byte).toNat = code)
    (ascii : code < 128) : byte.toNat = code := by
  rw [Text.byteChar] at same
  split_ifs at same with low
  · rwa [Text.toNat_ofNat (.inl (by omega))] at same
  · subst same
    exact absurd ascii (by decide)

theorem byteChar_eq_escape_iff {byte : UInt8} : Text.byteChar byte = '\x1b' ↔ byte = 0x1b := by
  constructor
  · exact fun same => UInt8.toNat_inj.mp (toNat_byteChar (by rw [same]; rfl) (by decide))
  · rintro rfl
    decide

/-- Only idle bytes are read as escapes and as control noise. -/
theorem mem_idleBytes_iff {byte : UInt8} : byte ∈ idleBytes ↔
    isNoise (Text.byteChar byte) = true ∨ Text.byteChar byte = '\x1b' := by
  constructor
  · have all : ∀ byte ∈ idleBytes, isNoise (Text.byteChar byte) = true ∨
        Text.byteChar byte = '\x1b' := by
      rw [idleBytes, List.forall_mem_cons, List.forall_mem_cons, List.forall_mem_cons,
        List.forall_mem_cons, List.forall_mem_singleton]
      exact ⟨.inr (by decide), .inl (by decide), .inl (by decide), .inl (by decide),
        .inl (by decide)⟩
    exact all byte
  · have back (code : UInt8) (same : (Text.byteChar byte).toNat = code.toNat)
        (ascii : code.toNat < 128) : byte = code :=
      UInt8.toNat_inj.mp (toNat_byteChar same ascii)
    rintro (noise | escape)
    · rw [isNoise, decide_eq_true_eq] at noise
      rcases noise with one | one | one | one
      · rw [back 0x07 (by rw [one]; rfl) (by decide)]
        decide
      · rw [back 0x08 (by rw [one]; rfl) (by decide)]
        decide
      · rw [back 0x0b (by rw [one]; rfl) (by decide)]
        decide
      · rw [back 0x0c (by rw [one]; rfl) (by decide)]
        decide
    · rw [byteChar_eq_escape_iff.mp escape]
      decide

/-- No two bytes of a stream are read as one character, an escape is followed by idle bytes only, and
a line that is cut goes on to the end. -/
structure Steady (stream : List UInt8) : Prop where
  alone : ∀ front first second rest, stream = front ++ first :: second :: rest →
    (Text.decode [first, second]).length ≠ 1
  escapes : ∀ front second rest, stream = front ++ 0x1b :: second :: rest → second ∈ idleBytes
  lines : ∀ front rest, stream = front ++ rest → Fits (lastLine (shown front)) ∧
    (byteLen (lastLine (shown front)) ≤ partialBytes ∨ 10 ∉ rest)

namespace Steady

theorem front {front rest : List UInt8} (steady : Steady (front ++ rest)) : Steady front := by
  constructor
  · rintro before first second later rfl
    exact steady.alone before first second (later ++ rest) (by simp)
  · rintro before second later rfl
    exact steady.escapes before second (later ++ rest) (by simp)
  · rintro before later rfl
    obtain ⟨fits, line⟩ := steady.lines before (later ++ rest) (List.append_assoc _ _ _)
    exact ⟨fits, line.imp_right fun clean member => clean (List.mem_append_left _ member)⟩

theorem lossy {before chunk rest : List UInt8} (steady : Steady (before ++ chunk ++ rest)) :
    (Text.lossy chunk).toList = chunk.map Text.byteChar := by
  refine Text.lossy_alone ?_
  rintro front first second later rfl
  exact steady.alone (before ++ front) first second (later ++ rest) (by simp)

theorem idle {before rest : List UInt8} (steady : Steady (before ++ 0x1b :: rest)) :
    Idle (rest.map Text.byteChar) := by
  induction rest generalizing before with
  | nil => trivial
  | cons byte rest ih =>
      rcases mem_idleBytes_iff.mp (steady.escapes before byte rest rfl) with noise | escape
      · exact .inl noise
      · have same := byteChar_eq_escape_iff.mp escape
        rw [same] at steady
        have further : Steady (before ++ [0x1b] ++ 0x1b :: rest) := by
          rwa [List.append_assoc, List.singleton_append]
        exact .inr ⟨escape, ih further⟩

/-- After some bytes the scrubber is outside of escape sequences, or the last byte is an escape. -/
theorem after {before chunk rest : List UInt8} (steady : Steady (before ++ chunk ++ rest)) :
    Scrubber.text.after (chunk.map Text.byteChar) = .text ∨
      Scrubber.text.after (chunk.map Text.byteChar) = .escape ∧ ∃ front, chunk = front ++ [0x1b] := by
  induction chunk using List.reverseRecOn generalizing rest with
  | nil => exact .inl rfl
  | append_singleton chunk byte ih =>
      have step (state : Scrubber) (earlier : Scrubber.text.after (chunk.map Text.byteChar) = state) :
          Scrubber.text.after ((chunk ++ [byte]).map Text.byteChar) =
            state.next (Text.byteChar byte) := by
        rw [List.map_append, Scrubber.after, List.foldl_append]
        exact congrArg (Scrubber.next · (Text.byteChar byte)) earlier
      have whole : before ++ (chunk ++ [byte]) ++ rest = before ++ chunk ++ byte :: rest := by simp
      rw [whole] at steady
      rcases ih steady with text | ⟨escape, front, rfl⟩
      · rw [step .text text, Scrubber.next]
        split_ifs with same
        · exact .inr ⟨rfl, chunk, by rw [byteChar_eq_escape_iff.mp same]⟩
        · exact .inl rfl
      · have follows := steady.escapes (before ++ front) byte rest (by simp)
        have other : Text.byteChar byte ≠ '[' := by
          rcases mem_idleBytes_iff.mp follows with noise | same
          · exact (isNoise_apart noise).2
          · rw [same]
            decide
        left
        rw [step .escape escape, Scrubber.next, if_neg other]

theorem quiet {reads : List (List UInt8)} (steady : Steady reads.flatten) : QuietReads reads := by
  rintro done chunk later rfl
  have whole : (done ++ chunk :: later).flatten = done.flatten ++ chunk ++ later.flatten := by
    rw [List.flatten_append, List.flatten_cons, List.append_assoc]
  rw [whole] at steady
  refine ⟨fun cuts => ?_, ?_⟩
  · obtain ⟨before, first, second, rest, made, one⟩ := cuts.pair
    refine steady.alone (done.flatten ++ before) first second rest ?_ one
    rw [List.append_assoc, made, List.append_assoc]
  · have ending : Steady (done.flatten ++ chunk ++ later.flatten ++ []) := by
      rwa [List.append_nil]
    rw [steady.lossy, ending.lossy]
    rcases steady.after with text | ⟨escape, front, rfl⟩
    · rw [text]
      trivial
    · have same : done.flatten ++ (front ++ [0x1b]) ++ later.flatten =
          done.flatten ++ front ++ 0x1b :: later.flatten := by simp
      rw [same] at steady
      rw [escape]
      exact steady.idle

end Steady

theorem scrubFrom_sublist (scrubber : Scrubber) (chars : List Char) :
    (scrubFrom scrubber chars).Sublist chars := by
  induction chars generalizing scrubber with
  | nil => exact List.Sublist.refl _
  | cons char rest ih =>
      rw [scrubFrom]
      split_ifs
      · exact (ih _).cons_cons char
      · exact (ih _).cons char

theorem Steady.holdsLines {reads : List (List UInt8)} (steady : Steady reads.flatten) :
    HoldsLines reads := by
  rintro done later rfl
  obtain ⟨fits, line⟩ := steady.lines done.flatten later.flatten List.flatten_append
  refine ⟨fits, line.imp_right fun clean member => ?_⟩
  exact Text.newline_not_mem_lossy clean ((scrubFrom_sublist _ _).subset member)

/-- At every moment of a stream, the reads that it came in do not matter. -/
def Independent (stream : List UInt8) : Prop :=
  ∀ reads : List (List UInt8), reads.flatten <+: stream → Agrees reads

theorem Steady.independent {stream : List UInt8} (steady : Steady stream) : Independent stream := by
  rintro reads ⟨rest, rfl⟩
  exact steady.front.quiet.agrees steady.front.holdsLines

/-- A buffer has room for some more characters. -/
structure Room (buffer : BufferState) (count : Nat) : Prop where
  lines : buffer.lines.length + count ≤ ringLines
  line : byteLen buffer.partialLine + 4 * count ≤ partialBytes

/-- The bytes that a buffer has counted and those of the line that goes on. -/
def counted (buffer : BufferState) : Nat := buffer.bytes + byteLen buffer.partialLine

theorem byteLen_le (chars : List Char) : byteLen chars ≤ 4 * chars.length := by
  induction chars with
  | nil => exact Nat.le_refl _
  | cons char rest ih =>
      have size := char.utf8Size_le_four
      rw [byteLen, Clip.weight_cons, List.length_cons, ← byteLen]
      omega

theorem follow_bounds (state : List (List Char) × List Char) (text : List Char) :
    (follow state text).1.length ≤ state.1.length + text.length ∧
      byteLen (follow state text).2 ≤ byteLen state.2 + byteLen text := by
  induction text using List.reverseRecOn with
  | nil => exact ⟨Nat.le_refl _, Nat.le_refl _⟩
  | append_singleton text char ih =>
      obtain ⟨lines, line⟩ := ih
      rw [follow_concat, followChar, List.length_append, List.length_singleton, byteLen_append]
      split_ifs
      · refine ⟨?_, Nat.zero_le _⟩
        rw [List.length_append, List.length_singleton]
        omega
      · refine ⟨Nat.le_succ_of_le lines, ?_⟩
        rw [byteLen_append]
        omega

/-- A read for which there is room counts all that it shows. -/
theorem Room.read {buffer : BufferState} {total : Nat} (room : Room buffer total)
    (bytes : List UInt8) (more : Nat) (fits : (shown bytes).length + more ≤ total) :
    ∃ next, buffer.read bytes = .ok next ∧ Room next more ∧
      counted next = counted buffer + byteLen (shown bytes) := by
  obtain ⟨lines, line⟩ := follow_bounds (buffer.lines, buffer.partialLine) (shown bytes)
  have light := byteLen_le (shown bytes)
  have enough := room.lines
  have wide := room.line
  dsimp only at lines line
  obtain ⟨counted, pushed, weight⟩ := push_follow buffer (Text.lossy bytes)
    (Nat.le_trans lines (by omega)) (Nat.le_trans line (by omega))
  exact ⟨_, pushed, ⟨Nat.le_trans (Nat.add_le_add_right lines more) (by omega),
    Nat.le_trans (Nat.add_le_add_right line (4 * more)) (by omega)⟩, weight⟩

/-- The limits are not reached at any moment of a stream, and there is room for two characters. -/
def Roomy (stream : List UInt8) : Prop :=
  ∀ front, front <+: stream → (shown front).count '\n' + 2 ≤ ringLines ∧
    byteLen (lastLine (shown front)) + 8 ≤ partialBytes

theorem follow_start (text : List Char) :
    (follow ([], []) text).1.length = text.count '\n' ∧ (follow ([], []) text).2 = lastLine text := by
  induction text using List.reverseRecOn with
  | nil => exact ⟨rfl, rfl⟩
  | append_singleton text char ih =>
      obtain ⟨lines, line⟩ := ih
      rw [follow_concat, followChar, lastLine_concat, List.count_append]
      split_ifs with newline
      · rw [newline, List.count_singleton_self, List.length_append, List.length_singleton, lines]
        exact ⟨rfl, rfl⟩
      · have other : '\n' ∉ [char] := fun member => newline (List.mem_singleton.mp member).symm
        rw [List.count_eq_zero_of_not_mem other, line]
        exact ⟨lines, rfl⟩

theorem Roomy.start {stream front : List UInt8} (roomy : Roomy stream) (early : front <+: stream) :
    ∃ buffer, BufferState.empty.read front = .ok buffer ∧ Room buffer 2 := by
  obtain ⟨lines, line⟩ := roomy front early
  obtain ⟨count, last⟩ := follow_start (shown front)
  obtain ⟨bytes, pushed, -⟩ := push_follow .empty (Text.lossy front)
    (Nat.le_trans (Nat.le_of_eq count) (by omega)) (Nat.le_trans (Nat.le_of_eq (congrArg byteLen last)) (by omega))
  refine ⟨_, pushed, ⟨?_, ?_⟩⟩
  · exact Nat.le_trans (Nat.le_of_eq (congrArg (· + 2) count)) lines
  · exact Nat.le_trans (Nat.le_of_eq (congrArg (byteLen · + 8) last)) line

theorem shown_length (bytes : List UInt8) : (shown bytes).length ≤ (Text.decode bytes).length := by
  refine Nat.le_trans (scrubFrom_sublist _ _).length_le ?_
  rw [Text.lossy, String.toList_ofList, List.length_map]

/-- Two bytes that come one by one show as much as they do together. -/
theorem Independent.pair {stream front rest : List UInt8} {first second : UInt8}
    (independent : Independent stream) (roomy : Roomy stream)
    (made : stream = front ++ first :: second :: rest) :
    byteLen (shown [first, second]) = byteLen (shown [first]) + byteLen (shown [second]) := by
  have early : front ++ [first, second] <+: stream := ⟨rest, by rw [made]; simp⟩
  obtain ⟨buffer, done, room⟩ := roomy.start ((List.prefix_append _ _).trans early)
  have start : ([] ++ [front]).foldlM BufferState.read BufferState.empty = .ok buffer :=
    Except.foldlM_concat_ok_iff.mpr ⟨BufferState.empty, rfl, done⟩
  have one (byte : UInt8) : (shown [byte]).length ≤ 1 := by
    refine Nat.le_trans (shown_length [byte]) ?_
    rw [Text.decode_singleton]
    exact Nat.le_refl 1
  have two : (shown [first, second]).length ≤ 2 :=
    Nat.le_trans (shown_length _) (Text.decode_length _)
  obtain ⟨middle, read, left, weight⟩ := room.read [first] 1
    (Nat.add_le_add_right (one first) 1)
  obtain ⟨last, again, -, more⟩ := left.read [second] 0 (one second)
  obtain ⟨whole, together, -, all⟩ := room.read [first, second] 0 two
  have flat : ([] ++ [front] ++ [[first]] ++ [[second]]).flatten = front ++ [first, second] := by simp
  have level : ([] ++ [front] ++ [[first, second]]).flatten = front ++ [first, second] := by simp
  obtain ⟨final, apart, once⟩ := independent ([] ++ [front] ++ [[first]] ++ [[second]])
    (by rwa [flat])
  obtain ⟨other, joined, also⟩ := independent ([] ++ [front] ++ [[first, second]]) (by rwa [level])
  have begun := Except.foldlM_concat_ok_iff.mpr ⟨buffer, start, read⟩
  have ran := Except.foldlM_concat_ok_iff.mpr ⟨middle, begun, again⟩
  have went := Except.foldlM_concat_ok_iff.mpr ⟨buffer, start, together⟩
  rw [flat] at once
  rw [level] at also
  obtain rfl := Except.ok.inj (ran.symm.trans apart)
  obtain rfl := Except.ok.inj (went.symm.trans joined)
  obtain rfl := Except.ok.inj (once.symm.trans also)
  omega

theorem shown_singleton (byte : UInt8) : shown [byte] =
    if Scrubber.text.shows (Text.byteChar byte) then [Text.byteChar byte] else [] := by
  rw [shown, scrubAnsi, Text.lossy_singleton, scrubFrom]
  rfl

/-- A byte beyond ASCII that comes alone is shown as a replacement character. -/
theorem shown_high {byte : UInt8} (high : 128 ≤ byte.toNat) : byteLen (shown [byte]) = 3 := by
  have char : Text.byteChar byte = '\uFFFD' := if_neg (Nat.not_lt.mpr high)
  rw [shown_singleton, char]
  rfl

theorem lossy_escape (byte : UInt8) :
    (Text.lossy [0x1b, byte]).toList = ['\x1b', Text.byteChar byte] := by
  refine Text.lossy_alone fun before first second later made one => ?_
  cases before with
  | nil =>
      obtain ⟨rfl, -⟩ := List.cons.inj made
      exact absurd (Text.pair_high one).1 (by decide)
  | cons head before =>
      have long := congrArg List.length made
      simp only [List.length_append, List.length_cons, List.length_nil] at long
      omega

/-- An escape takes the byte with it that comes in the same read. -/
theorem shown_escape (byte : UInt8) : shown [0x1b, byte] = [] := by
  rw [shown, scrubAnsi, lossy_escape]
  rfl

theorem shown_nil_iff {byte : UInt8} : shown [byte] = [] ↔ byte ∈ idleBytes := by
  rw [shown_singleton, mem_idleBytes_iff]
  constructor
  · intro none
    split_ifs at none with seen
    rw [Scrubber.shows, decide_eq_true_eq] at seen
    by_contra other
    rw [not_or] at other
    exact seen ⟨rfl, other.2, other.1⟩
  · intro idle
    rw [if_neg]
    intro seen
    rw [Scrubber.shows, decide_eq_true_eq] at seen
    rcases idle with noise | escape
    · exact seen.2.2 noise
    · exact seen.2.1 escape

/-- A stream with room whose reads do not matter is steady. -/
theorem Independent.steady {stream : List UInt8} (independent : Independent stream)
    (roomy : Roomy stream) : Steady stream := by
  constructor
  · intro front first second rest made one
    have same := independent.pair roomy made
    obtain ⟨high, also⟩ := Text.pair_high one
    have light := byteLen_le (shown [first, second])
    have few := shown_length [first, second]
    rw [shown_high high, shown_high also] at same
    omega
  · intro front second rest made
    have same := independent.pair roomy made
    have none : byteLen [] = 0 := rfl
    rw [shown_escape, none] at same
    have few := Clip.solid_utf8Size.length_le (shown [second])
    rw [← byteLen] at few
    exact shown_nil_iff.mp (List.length_eq_zero_iff.mp (by omega))
  · rintro front rest rfl
    obtain ⟨-, line⟩ := roomy front (List.prefix_append _ _)
    exact ⟨.inl (by omega), .inl (by omega)⟩

/-- Reads do not matter when each of them is quiet and no line is cut that goes on to its end. So
they do not matter at any moment of a steady stream, and a stream with room has to be steady. -/
theorem reads_agree (stream : List UInt8) :
    (∀ reads, reads.flatten = stream → QuietReads reads → HoldsLines reads → Agrees reads) ∧
      (Steady stream → Independent stream) ∧
      (Roomy stream → Independent stream → Steady stream) :=
  ⟨fun _ _ quiet holds => quiet.agrees holds, Steady.independent,
    fun roomy independent => independent.steady roomy⟩

/-- A color sequence comes in two reads. -/
def splitColor : List (List UInt8) := [[0x1b], [0x5b, 0x33, 0x31, 0x6d]]

/-- Its parameters are shown. -/
theorem splitColor_shown : ¬ Agrees splitColor := by
  rintro ⟨buffer, apart, together⟩
  have one : splitColor.foldlM BufferState.read BufferState.empty =
      .ok ⟨[], ['[', '3', '1', 'm'], 0⟩ := by decide
  have whole : BufferState.empty.read splitColor.flatten = .ok BufferState.empty := by decide
  cases Except.ok.inj ((one.symm.trans apart).trans (together.symm.trans whole))

end Daemon.Pty
