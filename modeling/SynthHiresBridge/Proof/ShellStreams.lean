import SynthHiresBridge.Proof.PushCapped
import SynthHiresBridge.Data.LossyLines

namespace Daemon.Shell

open Pump

/-- The owner of a run takes every chunk. -/
def drained : Nat → Bool := fun _ => true

/-- The chunks are those of whole lines that fit together, and then one mark. -/
def CutShort (data chunks : List String) (text : String) : Prop :=
  ∃ before line after flushed, data = before ++ line :: after ∧ size before ≤ maxOutputBytes ∧
    maxOutputBytes < size (before ++ [line]) ∧ chunks = flushed ++ [truncationMarker] ∧
    total flushed = total before ∧ total before <+: text.toList

/-- A pump that has taken some lines, which all fit. -/
structure Flowing (data : List String) (pump : Pump) : Prop where
  kept : pump.buffer = ⟨String.ofList (total data), false⟩
  flowing : pump.streamStopped = false
  batched : total (pump.chunks ++ [pump.pending]) = total data

/-- A pump that has taken more lines than fit. -/
structure Stopped (data : List String) (pump : Pump) : Prop where
  dropped : pump.buffer.dropped = true
  full : maxOutputBytes ≤ pump.buffer.text.utf8ByteSize
  stopped : pump.streamStopped = true
  flushed : pump.pending = ""
  cut : CutShort data pump.chunks pump.buffer.text

def Follows (data : List String) (pump : Pump) : Prop :=
  if size data ≤ maxOutputBytes then Flowing data pump else Stopped data pump

theorem CutShort.concat {data chunks : List String} {text : String} (cut : CutShort data chunks text)
    (line : String) : CutShort (data ++ [line]) chunks text := by
  obtain ⟨before, first, after, flushed, made, rest⟩ := cut
  refine ⟨before, first, after ++ [line], flushed, ?_, rest⟩
  rw [made, List.append_assoc, List.cons_append]

theorem total_empty (chunks : List String) : total (chunks ++ [""]) = total chunks := by
  rw [total_append, total_singleton]
  exact List.append_nil _

/-- A flush sends what is batched and nothing else. -/
theorem flush_drained (pump : Pump) : (pump.flush drained).buffer = pump.buffer ∧
    (pump.flush drained).streamStopped = pump.streamStopped ∧
    (pump.flush drained).pending = "" ∧
    total (pump.flush drained).chunks = total (pump.chunks ++ [pump.pending]) := by
  rw [flush]
  split_ifs with empty
  · refine ⟨rfl, rfl, empty, ?_⟩
    rw [empty, total_empty]
  · exact ⟨rfl, rfl, rfl, rfl⟩

/-- A line that fits is kept and batched. -/
theorem Flowing.takeLine {data : List String} {pump : Pump} (flowing : Flowing data pump)
    {line : String} (fits : size (data ++ [line ++ "\n"]) ≤ maxOutputBytes) :
    Flowing (data ++ [line ++ "\n"]) (pump.takeLine drained line).1 ∧
      (pump.takeLine drained line).2 = true := by
  have bytes : (String.ofList (total data)).utf8ByteSize = size data := by
    rw [Clip.utf8ByteSize_eq, String.toList_ofList]
    rfl
  have pushed : pushCapped pump.buffer (line ++ "\n") =
      ⟨String.ofList (total (data ++ [line ++ "\n"])), false⟩ := by
    have one : ("\n" : String).utf8ByteSize = 1 := rfl
    rw [size_append, size_singleton] at fits
    rw [flowing.kept, pushCapped, bytes, if_neg, if_neg (Nat.not_lt.mpr fits)]
    · rw [total_append, total_singleton, String.ofList_append, String.ofList_toList]
    · rw [String.utf8ByteSize_append] at fits
      omega
  have more : total (pump.chunks ++ [pump.pending ++ (line ++ "\n")]) =
      total (data ++ [line ++ "\n"]) := by
    rw [total_append, total_append data, ← flowing.batched, total_append, total_singleton,
      total_singleton, total_singleton, String.toList_append, List.append_assoc]
  rw [Pump.takeLine, pushed]
  simp only [Bool.false_eq_true, if_false]
  split_ifs
  · obtain ⟨buffer, stream, empty, sent⟩ := flush_drained
      { pump with
        buffer := ⟨String.ofList (total (data ++ [line ++ "\n"])), false⟩
        pending := pump.pending ++ (line ++ "\n") }
    refine ⟨⟨buffer, stream.trans flowing.flowing, ?_⟩, rfl⟩
    rw [empty, total_empty, sent, more]
  · exact ⟨⟨rfl, flowing.flowing, more⟩, rfl⟩

/-- A chunk without enough room leaves a full buffer behind what was kept before. -/
theorem pushCapped_late {data : List String} {chunk : String}
    (late : maxOutputBytes < size (data ++ [chunk])) :
    ∃ rest, pushCapped ⟨String.ofList (total data), false⟩ chunk =
        ⟨String.ofList (total data) ++ rest, true⟩ ∧
      maxOutputBytes ≤ (String.ofList (total data) ++ rest).utf8ByteSize := by
  have bytes : (String.ofList (total data)).utf8ByteSize = size data := by
    rw [Clip.utf8ByteSize_eq, String.toList_ofList]
    rfl
  rw [size_append, size_singleton] at late
  rw [pushCapped, bytes]
  split_ifs with full
  · refine ⟨"", by rw [String.append_empty], ?_⟩
    rw [String.append_empty, bytes]
    exact full
  · refine ⟨String.ofList (chunk.toList.take (maxOutputBytes - size data)) ++ truncationMarker, ?_, ?_⟩
    · rw [← String.append_assoc]
    have enough : maxOutputBytes - size data ≤ Clip.weight Char.utf8Size chunk.toList := by
      rw [← Clip.utf8ByteSize_eq]
      omega
    have fills := Clip.solid_utf8Size.take_fills enough
    rw [String.utf8ByteSize_append, String.utf8ByteSize_append, bytes,
      Clip.utf8ByteSize_eq (String.ofList _), String.toList_ofList]
    omega

/-- The mark goes out behind what was batched. -/
theorem stopStream_drained {pump : Pump} (flowing : pump.streamStopped = false) :
    (pump.stopStream drained).buffer = pump.buffer ∧ (pump.stopStream drained).streamStopped = true ∧
      (pump.stopStream drained).pending = "" ∧ ∃ flushed,
        (pump.stopStream drained).chunks = flushed ++ [truncationMarker] ∧
          total flushed = total (pump.chunks ++ [pump.pending]) := by
  obtain ⟨buffer, -, empty, sent⟩ := flush_drained pump
  rw [stopStream, flowing]
  exact ⟨buffer, rfl, empty, (pump.flush drained).chunks, rfl, sent⟩

/-- The first line that does not fit stops the stream. -/
theorem Flowing.stops {data : List String} {pump : Pump} (flowing : Flowing data pump)
    (bound : size data ≤ maxOutputBytes) {line : String}
    (late : maxOutputBytes < size (data ++ [line ++ "\n"])) :
    Stopped (data ++ [line ++ "\n"]) (pump.takeLine drained line).1 ∧
      (pump.takeLine drained line).2 = true := by
  obtain ⟨rest, pushed, full⟩ := pushCapped_late late
  rw [← flowing.kept] at pushed
  have going : { pump with buffer := pushCapped pump.buffer (line ++ "\n") }.streamStopped = false :=
    flowing.flowing
  obtain ⟨buffer, stopped, empty, flushed, chunks, sent⟩ := stopStream_drained going
  have dropped : (pushCapped pump.buffer (line ++ "\n")).dropped = true := by rw [pushed]
  rw [Pump.takeLine]
  simp only [dropped, if_true]
  refine ⟨⟨?_, ?_, stopped, empty, data, line ++ "\n", [], flushed, rfl, bound, late, chunks, ?_, ?_⟩,
    trivial⟩
  · rw [buffer, dropped]
  · rw [buffer, pushed]
    exact full
  · exact sent.trans flowing.batched
  · rw [buffer, pushed, String.toList_append, String.toList_ofList]
    exact List.prefix_append _ _

/-- A stream that has stopped stays as it is. -/
theorem Stopped.takeLine {data : List String} {pump : Pump} (stopped : Stopped data pump)
    (line : String) : Stopped (data ++ [line ++ "\n"]) (pump.takeLine drained line).1 ∧
      (pump.takeLine drained line).2 = true := by
  have pushed : pushCapped pump.buffer (line ++ "\n") = pump.buffer := by
    rw [pushCapped, if_pos stopped.full, ← stopped.dropped]
  have same : { pump with buffer := pushCapped pump.buffer (line ++ "\n") } = pump := by
    rw [pushed]
  rw [Pump.takeLine, same, stopStream]
  simp only [stopped.dropped, stopped.stopped, if_true, and_true]
  exact ⟨stopped.dropped, stopped.full, stopped.stopped, stopped.flushed, stopped.cut.concat _⟩

theorem Follows.takeLine {data : List String} {pump : Pump} (follows : Follows data pump)
    (line : String) : Follows (data ++ [line ++ "\n"]) (pump.takeLine drained line).1 ∧
      (pump.takeLine drained line).2 = true := by
  rw [Follows] at follows ⊢
  have grows : size data ≤ size (data ++ [line ++ "\n"]) := by
    rw [size_append]
    exact Nat.le_add_right _ _
  by_cases fits : size (data ++ [line ++ "\n"]) ≤ maxOutputBytes
  · rw [if_pos fits]
    rw [if_pos (Nat.le_trans grows fits)] at follows
    exact follows.takeLine fits
  · rw [if_neg fits]
    split_ifs at follows with bound
    · exact follows.stops bound (Nat.not_le.mp fits)
    · exact follows.takeLine line

/-- The lines up to the first one that is no text. -/
def textLines : List (List UInt8) → List String
  | [] => []
  | piece :: rest =>
      match nextLine piece with
      | none => []
      | some line => line :: textLines rest

/-- What a pump takes of a stream are the lines up to the first one that is no text. -/
def taken (reads : List (List UInt8)) : List String :=
  (textLines (Lines.pieces 10 reads.flatten)).map (· ++ "\n")

theorem Follows.loop {data : List String} {pump : Pump} (follows : Follows data pump)
    (pieces : List (List UInt8)) :
    Follows (data ++ (textLines pieces).map (· ++ "\n")) (pump.loop drained pieces) := by
  induction pieces generalizing data pump with
  | nil =>
      rw [textLines, List.map_nil, List.append_nil]
      exact follows
  | cons piece rest ih =>
      rw [textLines, Pump.loop]
      cases nextLine piece with
      | none =>
          rw [List.map_nil, List.append_nil]
          exact follows
      | some line =>
          obtain ⟨next, goes⟩ := follows.takeLine line
          have later := ih next
          rw [List.append_assoc, List.singleton_append] at later
          simp only [goes, if_true]
          exact later

theorem Follows.start : Follows [] Pump.start := by
  have none : size [] ≤ maxOutputBytes := Nat.zero_le _
  rw [Follows, if_pos none]
  exact ⟨rfl, rfl, rfl⟩

/-- A pump keeps and sends what it has taken, or it says that it was cut short. -/
theorem run_drained (reads : List (List UInt8)) :
    if size (taken reads) ≤ maxOutputBytes then
      (Pump.run drained reads).buffer = ⟨String.ofList (total (taken reads)), false⟩ ∧
        total (Pump.run drained reads).chunks = total (taken reads)
    else (Pump.run drained reads).buffer.dropped = true ∧
      CutShort (taken reads) (Pump.run drained reads).chunks (Pump.run drained reads).buffer.text := by
  have follows := Follows.start.loop (Lines.readPieces 10 reads)
  rw [List.nil_append, Lines.readPieces_eq] at follows
  change Follows (taken reads) _ at follows
  obtain ⟨buffer, -, -, sent⟩ :=
    flush_drained (Pump.start.loop drained (Lines.readPieces 10 reads))
  rw [Lines.readPieces_eq] at buffer sent
  rw [Pump.run, Lines.readPieces_eq, buffer, sent]
  rw [Follows] at follows
  split_ifs at follows ⊢
  · exact ⟨follows.kept, follows.batched⟩
  · refine ⟨follows.dropped, ?_⟩
    rw [flush, if_pos follows.flushed]
    exact follows.cut

/-- Every line that a command has written, as a reader without state would show it. -/
def written (reads : List (List UInt8)) : List String :=
  (Text.lines (Text.lossy reads.flatten)).map (· ++ "\n")

/-- Every line of a stream is text. -/
def Textual (reads : List (List UInt8)) : Prop :=
  ∀ piece ∈ Lines.pieces 10 reads.flatten, (Text.strict piece).isSome

theorem lossy_of_strict {bytes : List UInt8} {text : String} (valid : Text.strict bytes = some text) :
    Text.lossy bytes = text := by
  have all : ∀ (parts : List (Option Char)) (chars : List Char), parts.mapM id = some chars →
      parts.map (fun char => char.getD '\uFFFD') = chars := by
    intro parts
    induction parts with
    | nil =>
        intro chars made
        exact Option.some.inj made
    | cons part parts ih =>
        intro chars made
        rw [List.mapM_cons] at made
        cases part with
        | none => cases made
        | some char =>
            cases rest : parts.mapM id with
            | none =>
                rw [rest] at made
                cases made
            | some more =>
                rw [rest] at made
                obtain rfl := Option.some.inj made
                rw [List.map_cons, ih more rest]
                rfl
  rw [Text.strict, Option.map_eq_some_iff] at valid
  obtain ⟨chars, made, rfl⟩ := valid
  rw [Text.lossy, all _ chars made]

theorem nextLine_some {piece : List UInt8} {line : String} (read : nextLine piece = some line) :
    line = Text.pieceText piece := by
  rw [nextLine, Option.map_eq_some_iff] at read
  obtain ⟨text, valid, rfl⟩ := read
  rw [Text.pieceText, lossy_of_strict valid]

/-- The lines that a pump takes are the first lines, and all of them when every line is text. -/
theorem textLines_cases (pieces : List (List UInt8)) :
    ∃ rest, pieces.map Text.pieceText = textLines pieces ++ rest ∧
      (rest = [] ↔ ∀ piece ∈ pieces, (Text.strict piece).isSome) := by
  induction pieces with
  | nil => exact ⟨[], rfl, iff_of_true rfl nofun⟩
  | cons piece pieces ih =>
      obtain ⟨rest, made, all⟩ := ih
      rw [textLines]
      cases read : nextLine piece with
      | none =>
          have invalid : Text.strict piece = none := Option.map_eq_none_iff.mp read
          refine ⟨(piece :: pieces).map Text.pieceText, rfl, ?_⟩
          refine iff_of_false (List.cons_ne_nil _ _) fun every => ?_
          have own := every piece List.mem_cons_self
          rw [invalid] at own
          cases own
      | some line =>
          have valid : (Text.strict piece).isSome := by
            rw [← Option.isSome_map (f := fun text : String => String.ofList (Text.unterminated text.toList))]
            exact Option.isSome_of_eq_some read
          refine ⟨rest, ?_, ?_⟩
          · rw [List.map_cons, made, nextLine_some read, List.cons_append]
          · rw [all, List.forall_mem_cons, and_iff_right valid]

theorem written_eq (reads : List (List UInt8)) : ∃ rest, written reads = taken reads ++ rest ∧
    (rest = [] ↔ Textual reads) := by
  obtain ⟨rest, made, all⟩ := textLines_cases (Lines.pieces 10 reads.flatten)
  refine ⟨rest.map (· ++ "\n"), ?_, List.map_eq_nil_iff.trans all⟩
  rw [written, Text.lines_lossy, made, List.map_append, taken]

/-- Lines that are left out are missed. -/
theorem total_written_iff (reads : List (List UInt8)) :
    total (taken reads) = total (written reads) ↔ Textual reads := by
  obtain ⟨rest, made, all⟩ := written_eq reads
  rw [← all, made, total_append, List.self_eq_append_right]
  constructor
  · intro empty
    cases rest with
    | nil => rfl
    | cons line rest =>
        have member : line ∈ written reads := by
          rw [made]
          exact List.mem_append_right _ List.mem_cons_self
        obtain ⟨text, -, rfl⟩ := List.mem_map.mp member
        have chars := congrArg List.length empty
        rw [← List.singleton_append, total_append, total_singleton, String.toList_append] at chars
        simp at chars
  · rintro rfl
    rfl

/-- A result without the flag has every line of both streams, in the texts and in the chunks, and a
channel that was cut short has sent whole lines and one mark. -/
def TellsTruncation (reads : Stream → List (List UInt8)) (result : ShellResult)
    (received : List ShellOutputChunk) : Prop :=
  (result.outputTruncated = false → ∀ channel,
    (result.of channel).toList = total (written (reads channel)) ∧
      total (chunksOf channel received) = (result.of channel).toList) ∧
  (result.outputTruncated = true →
    (∃ channel, CutShort (written (reads channel)) (chunksOf channel received) (result.of channel)) ∧
      ∀ channel, (Pump.run drained (reads channel)).buffer.dropped = true →
        CutShort (written (reads channel)) (chunksOf channel received) (result.of channel))

theorem awaitResult_exited {code : Option Int} {durationMs : Nat} {pumps : Stream → Pump}
    {result : ShellResult} (ended : awaitResult (.exited code) durationMs pumps = .ok result) :
    (∀ channel, result.of channel = (pumps channel).buffer.text) ∧
      (result.outputTruncated = true ↔ ∃ channel, (pumps channel).buffer.dropped = true) := by
  obtain rfl := Except.ok.inj ended
  refine ⟨fun channel => by cases channel <;> rfl, ?_⟩
  rw [Bool.or_eq_true]
  constructor
  · rintro (out | err)
    · exact ⟨.stdout, out⟩
    · exact ⟨.stderr, err⟩
  · rintro ⟨channel, dropped⟩
    cases channel with
    | stdout => exact .inl dropped
    | stderr => exact .inr dropped

theorem dropped_iff (reads : List (List UInt8)) :
    (Pump.run drained reads).buffer.dropped = true ↔ maxOutputBytes < size (taken reads) := by
  have ran := run_drained reads
  split_ifs at ran with fits
  · rw [ran.1]
    exact iff_of_false Bool.false_ne_true (Nat.not_lt.mpr fits)
  · exact iff_of_true ran.1 (Nat.not_le.mp fits)

theorem run_cutShort {reads : List (List UInt8)} (late : maxOutputBytes < size (taken reads)) :
    CutShort (written reads) (Pump.run drained reads).chunks (Pump.run drained reads).buffer.text := by
  have ran := run_drained reads
  rw [if_neg (Nat.not_le.mpr late)] at ran
  obtain ⟨rest, made, -⟩ := written_eq reads
  obtain ⟨before, line, after, flushed, cut, more⟩ := ran.2
  refine ⟨before, line, after ++ rest, flushed, ?_, more⟩
  rw [made, cut, List.append_assoc, List.cons_append]

/-- A result tells what is left out when the lines up to the first one that is no text are too many
bytes on some channel, or when every line of both channels is text. -/
theorem tellsTruncation_iff {reads : Stream → List (List UInt8)} {received : List ShellOutputChunk}
    {code : Option Int} {durationMs : Nat} {result : ShellResult}
    (ended : awaitResult (.exited code) durationMs (fun channel => Pump.run drained (reads channel)) =
      .ok result)
    (merged : ∀ channel, chunksOf channel received = (Pump.run drained (reads channel)).chunks) :
    TellsTruncation reads result received ↔
      (∃ channel, maxOutputBytes < size (taken (reads channel))) ∨
        ∀ channel, Textual (reads channel) := by
  obtain ⟨texts, flag⟩ := awaitResult_exited ended
  simp only [dropped_iff] at flag
  by_cases late : ∃ channel, maxOutputBytes < size (taken (reads channel))
  · refine iff_of_true ⟨fun clear => ?_, fun _ => ?_⟩ (.inl late)
    · rw [flag.mpr late] at clear
      cases clear
    · have cut : ∀ channel, (Pump.run drained (reads channel)).buffer.dropped = true →
          CutShort (written (reads channel)) (chunksOf channel received) (result.of channel) := by
        intro channel dropped
        rw [merged, texts]
        exact run_cutShort ((dropped_iff _).mp dropped)
      obtain ⟨channel, more⟩ := late
      exact ⟨⟨channel, cut channel ((dropped_iff _).mpr more)⟩, cut⟩
  · have clear : result.outputTruncated = false :=
      Bool.eq_false_iff.mpr fun told => late (flag.mp told)
    have whole : ∀ channel, (result.of channel).toList = total (taken (reads channel)) ∧
        total (chunksOf channel received) = (result.of channel).toList := by
      intro channel
      have ran := run_drained (reads channel)
      rw [if_pos (Nat.not_lt.mp (not_exists.mp late channel))] at ran
      rw [merged, texts, ran.1, ran.2, String.toList_ofList]
      exact ⟨rfl, rfl⟩
    rw [or_iff_right late, TellsTruncation, clear]
    simp only [Bool.false_eq_true, false_implies, and_true, true_implies]
    refine forall_congr' fun channel => ?_
    rw [and_iff_left (whole channel).2, (whole channel).1, total_written_iff]

/-- The output of a command that prints a byte that is no text between two lines. -/
def mixed : Stream → List (List UInt8)
  | .stdout => [[97, 10, 255], [10, 98, 10]]
  | .stderr => []

theorem mixed_merged : ∀ channel, chunksOf channel [⟨.stdout, "a\n"⟩] =
    (Pump.run drained (mixed channel)).chunks := by
  intro channel
  cases channel <;> decide

theorem tellsTruncation_iff_mixed :
    ∃ result, awaitResult (.exited (some 0)) 5 (fun channel => Pump.run drained (mixed channel)) =
      .ok result ∧ (TellsTruncation mixed result [⟨.stdout, "a\n"⟩] ↔
        (∃ channel, maxOutputBytes < size (taken (mixed channel))) ∨
          ∀ channel, Textual (mixed channel)) :=
  ⟨_, rfl, tellsTruncation_iff rfl mixed_merged⟩

/-- The line after that byte is not in the result, which has no flag. -/
theorem mixed_incomplete : ∃ result,
    awaitResult (.exited (some 0)) 5 (fun channel => Pump.run drained (mixed channel)) = .ok result ∧
      ¬ TellsTruncation mixed result [⟨.stdout, "a\n"⟩] := by
  refine ⟨_, rfl, fun tells => ?_⟩
  have clear : ((Pump.run drained (mixed .stdout)).buffer.dropped ||
      (Pump.run drained (mixed .stderr)).buffer.dropped) = false := by decide
  have text : (Pump.run drained (mixed .stdout)).buffer.text = "a\n" := by decide
  have lines := (tells.1 clear .stdout).1
  change (Pump.run drained (mixed .stdout)).buffer.text.toList = _ at lines
  rw [text] at lines
  revert lines
  decide

end Daemon.Shell
