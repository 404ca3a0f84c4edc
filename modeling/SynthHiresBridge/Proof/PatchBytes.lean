import SynthHiresBridge.Data.LossyLines
import SynthHiresBridge.Proof.PatchTogether

namespace Daemon.FsOps

open Posix FileSystem

/-- A line of a patched file was kept with its bytes or added as a text. -/
inductive Laid where
  | kept (piece : List UInt8)
  | added (text : String)
  deriving DecidableEq

def Laid.text : Laid → String
  | .kept piece => Text.pieceText piece
  | .added text => text

def laidSplice (edit : HashlineEdit) : Splice.Edit Laid :=
  ⟨edit.first - 1, edit.last, edit.replacement.map .added⟩

/-- The pieces of a file with every edited range replaced at once. -/
def laid (original : List UInt8) (edits : List HashlineEdit) : List Laid :=
  Splice.together (edits.map laidSplice) ((Lines.pieces 10 original).map .kept)

/-- The bytes of a file whose kept lines are as they were, and whose added lines end with either
terminator, or with none at the end of the file. -/
inductive Lays : List Laid → List UInt8 → Prop where
  | nothing : Lays [] []
  | kept (piece : List UInt8) {rest : List Laid} {bytes : List UInt8} (lays : Lays rest bytes) :
      Lays (.kept piece :: rest) (piece ++ bytes)
  | added (text : String) {stop : List UInt8} {rest : List Laid} {bytes : List UInt8}
      (ending : stop = [10] ∨ stop = [13, 10]) (lays : Lays rest bytes) :
      Lays (.added text :: rest) (Text.encode text ++ stop ++ bytes)
  | last (text : String) : Lays [.added text] (Text.encode text)

/-- A patch that is accepted keeps the bytes of every line outside its ranges. -/
def KeepsBytes (host : Host) (moment : Moment) (gate : CapabilityGate) (fs : FileSystem)
    (req : FsPatchRequest) : Prop :=
  ∀ result, (patch host moment gate fs req).1 = .ok result →
    ∃ original written, fs.read (.ofText req.path) = .ok original ∧
      (patch host moment gate fs req).2.read (.ofText req.path) = .ok written ∧
      Lays (laid original req.edits) written

/-- Kept lines are valid UTF-8 and end with a newline alone, the last line of a file that does not
end with a newline has none, and a file that ends with one has a line. -/
structure Untouched (ended : Bool) (lines : List Laid) : Prop where
  plain : ∀ piece, .kept piece ∈ lines → Text.Plain piece
  ending : ended = false → ∀ piece, lines.getLast? = some (.kept piece) → 10 ∉ piece
  filled : ended = true → lines ≠ []

/-- The same with the text of a line, which must give its bytes. -/
structure Recoded (ended : Bool) (lines : List Laid) : Prop where
  readable : ∀ piece, .kept piece ∈ lines →
    Text.encode (Text.pieceText piece) ++ (if 10 ∈ piece then [10] else []) = piece
  ending : ended = false → ∀ piece, lines.getLast? = some (.kept piece) → 10 ∉ piece
  filled : ended = true → lines ≠ []

/-- Every kept line has its terminator, except a last one in a file without a newline at its
end. -/
def Formed (ended : Bool) (lines : List Laid) : Prop :=
  ∃ front tail, lines = front ++ tail ∧
    (∀ piece, .kept piece ∈ front → ∃ raw, 10 ∉ raw ∧ piece = raw ++ [10]) ∧
    (tail = [] ∨ ∃ raw, tail = [.kept raw] ∧ 10 ∉ raw ∧ ended = false)

/-- The lines of a patched file are the texts of its pieces. -/
theorem map_text_laid (original : List UInt8) (edits : List HashlineEdit) :
    (laid original edits).map Laid.text = described original edits := by
  have splices : (edits.map laidSplice).map (Splice.Edit.map Laid.text) =
      edits.map HashlineEdit.splice := by
    rw [List.map_map]
    apply List.map_congr_left
    intro edit _
    have texts : (edit.replacement.map Laid.added).map Laid.text = edit.replacement := by
      rw [List.map_map]
      exact List.map_id _
    exact congrArg (Splice.Edit.mk (edit.first - 1) edit.last) texts
  have lines : ((Lines.pieces 10 original).map Laid.kept).map Laid.text = linesOf original := by
    rw [linesOf, Text.lines_lossy, List.map_map]
    rfl
  rw [described, laid, ← splices, ← lines]
  exact (Splice.togetherFrom_map Laid.text _ 0 _).symm

theorem kept_not_mem_laidSplice {edits : List HashlineEdit} {piece : List UInt8} :
    ¬∃ splice ∈ edits.map laidSplice, Laid.kept piece ∈ splice.items := by
  rintro ⟨splice, member, inside⟩
  obtain ⟨edit, -, rfl⟩ := List.mem_map.mp member
  obtain ⟨text, -, same⟩ := List.mem_map.mp inside
  cases same

/-- What comes before the rest of a file was kept with its terminator or added. -/
theorem upper_terminated {edits : List HashlineEdit} {lines : List (List UInt8)}
    {upper : List Laid} (clean : ∀ line ∈ lines, 10 ∉ line)
    (known : ∀ item ∈ upper, item ∈ (lines.map (· ++ [10])).map Laid.kept ∨
      ∃ splice ∈ edits.map laidSplice, item ∈ splice.items) :
    ∀ piece, .kept piece ∈ upper → ∃ raw, 10 ∉ raw ∧ piece = raw ++ [10] := by
  intro piece member
  rcases known _ member with own | foreign
  · obtain ⟨held, inside, same⟩ := List.mem_map.mp own
    obtain ⟨raw, listed, rfl⟩ := List.mem_map.mp inside
    cases same
    exact ⟨raw, clean raw listed, rfl⟩
  · exact absurd foreign kept_not_mem_laidSplice

theorem formed_laid {original : List UInt8} {edits : List HashlineEdit}
    (inside : ∀ edit ∈ edits, edit.last ≤ (linesOf original).length) :
    Formed (endsWithNewline original) (laid original edits) := by
  obtain ⟨lines, tail, clean, unended, same, cut⟩ := Lines.pieces_shape (10 : UInt8) original
  have added : ∀ place item, item ∈ Splice.added (edits.map laidSplice) place →
      item ∈ (lines.map (· ++ [10])).map Laid.kept ∨
        ∃ splice ∈ edits.map laidSplice, item ∈ splice.items :=
    fun place item member => .inr (Splice.mem_added member)
  obtain ⟨upper, parts, known⟩ := Splice.togetherFrom_split (edits.map laidSplice) 0
    ((lines.map (· ++ [10])).map Laid.kept) (if tail = [] then [] else [.kept tail])
  have whole : laid original edits =
      upper ++ Splice.togetherFrom (edits.map laidSplice) (0 + lines.length)
        (if tail = [] then [] else [.kept tail]) := by
    rw [List.length_map, List.length_map] at parts
    rw [laid, cut, List.map_append, ← parts, Splice.together]
    congr 2
    split_ifs <;> rfl
  have size : (linesOf original).length = lines.length + if tail = [] then 0 else 1 := by
    rw [linesOf, Text.lines_lossy, List.length_map, cut, List.length_append, List.length_map]
    split_ifs <;> rfl
  by_cases empty : tail = []
  · rw [if_pos empty] at whole
    refine ⟨laid original edits, [], (List.append_nil _).symm, ?_, .inl rfl⟩
    rw [whole]
    apply upper_terminated clean
    intro item member
    rcases List.mem_append.mp member with above | end_
    · exact known item above
    · exact added _ item end_
  · rw [if_neg empty] at whole size
    have nothing : Splice.added (edits.map laidSplice) (0 + lines.length + 1) = [] := by
      apply Splice.added_eq_nil
      intro splice member
      obtain ⟨edit, asked, rfl⟩ := List.mem_map.mp member
      have bound := inside edit asked
      have filled := edit.splice_filled
      have start : (laidSplice edit).start = edit.splice.start := rfl
      have stop : edit.splice.stop = edit.last := rfl
      omega
    have open_ : endsWithNewline original = false := by
      rw [endsWithNewline, same, List.getLast?_append_of_ne_nil _ empty]
      exact decide_eq_false fun last => unended (List.mem_of_getLast? last)
    rw [Splice.togetherFrom, Splice.togetherFrom, nothing, List.append_nil, ← List.append_assoc]
      at whole
    refine ⟨upper ++ Splice.added (edits.map laidSplice) (0 + lines.length), _, whole, ?_, ?_⟩
    · apply upper_terminated clean
      intro item member
      rcases List.mem_append.mp member with above | end_
      · exact known item above
      · exact added _ item end_
    · split_ifs with taken
      · exact .inl rfl
      · exact .inr ⟨tail, rfl, unended, open_⟩

theorem lays_kept_iff {piece bytes : List UInt8} {rest : List Laid} :
    Lays (.kept piece :: rest) bytes ↔ ∃ more, bytes = piece ++ more ∧ Lays rest more := by
  constructor
  · intro lays
    cases lays with
    | kept _ more => exact ⟨_, rfl, more⟩
  · rintro ⟨more, rfl, lays⟩
    exact .kept piece lays

/-- An added line that is not the last one has its newline. -/
theorem lays_added_iff {text : String} {bytes : List UInt8} {rest : List Laid} (more : rest ≠ []) :
    Lays (.added text :: rest) (Text.encode text ++ [10] ++ bytes) ↔ Lays rest bytes := by
  constructor
  · intro lays
    generalize whole : Text.encode text ++ [10] ++ bytes = all at lays
    cases lays with
    | last => exact absurd rfl more
    | added _ ending lays =>
        rw [List.append_assoc, List.append_assoc, List.append_cancel_left_eq] at whole
        rcases ending with rfl | rfl
        · obtain rfl := (List.cons.inj whole).2
          exact lays
        · exact absurd (List.cons.inj whole).1 (by decide)
  · exact .added text (.inl rfl)

theorem lays_last_added (ended : Bool) (text : String) :
    Lays [.added text] (Text.encode (text ++ if ended then "\n" else "")) := by
  cases ended with
  | false =>
      rw [if_neg Bool.false_ne_true, String.append_empty]
      exact .last text
  | true =>
      rw [if_pos rfl, Text.encode_string_append]
      have lays := Lays.added text (.inl rfl) .nothing
      rwa [List.append_nil] at lays

theorem recoded_cons_iff {ended : Bool} {line : Laid} {rest : List Laid} (more : rest ≠ []) :
    Recoded ended (line :: rest) ↔
      (∀ piece, line = .kept piece →
        Text.encode (Text.pieceText piece) ++ (if 10 ∈ piece then [10] else []) = piece) ∧
        Recoded ended rest := by
  have last : (line :: rest).getLast? = rest.getLast? := by
    rw [List.getLast?_cons_of_ne_nil more]
  constructor
  · intro recoded
    refine ⟨?_, ?_, ?_, fun _ => more⟩
    · rintro piece rfl
      exact recoded.readable piece (List.mem_cons_self ..)
    · exact fun piece member => recoded.readable piece (.tail _ member)
    · rw [← last]
      exact recoded.ending
  · rintro ⟨here, later⟩
    refine ⟨?_, ?_, fun _ => List.cons_ne_nil _ _⟩
    · intro piece member
      rcases List.mem_cons.mp member with own | after
      · exact here piece own.symm
      · exact later.readable piece after
    · rw [last]
      exact later.ending

theorem lays_single_kept_iff {piece bytes : List UInt8} :
    Lays [.kept piece] bytes ↔ bytes = piece := by
  rw [lays_kept_iff]
  constructor
  · rintro ⟨more, rfl, lays⟩
    cases lays
    exact List.append_nil piece
  · rintro rfl
    exact ⟨[], (List.append_nil _).symm, .nothing⟩

theorem recoded_single_kept_iff {ended : Bool} {piece : List UInt8} :
    Recoded ended [.kept piece] ↔
      Text.encode (Text.pieceText piece) ++ (if 10 ∈ piece then [10] else []) = piece ∧
        (ended = false → 10 ∉ piece) := by
  constructor
  · intro recoded
    exact ⟨recoded.readable piece (List.mem_cons_self ..),
      fun open_ => recoded.ending open_ piece rfl⟩
  · rintro ⟨same, open_⟩
    refine ⟨?_, ?_, fun _ => List.cons_ne_nil _ _⟩
    · intro other member
      cases List.mem_singleton.mp member
      exact same
    · rintro off other last
      cases Option.some.inj last
      exact open_ off

/-- A kept line with its terminator is found again exactly where its own bytes come first. -/
theorem kept_line_iff {raw text bytes : List UInt8} (clean : 10 ∉ raw) (plain : 10 ∉ text)
    {rest : List Laid} :
    Lays (.kept (raw ++ [10]) :: rest) (text ++ [10] ++ bytes) ↔
      text ++ [10] = raw ++ [10] ∧ Lays rest bytes := by
  rw [lays_kept_iff, List.append_left_inj]
  constructor
  · rintro ⟨more, same, lays⟩
    rw [List.append_assoc, List.append_assoc, List.singleton_append, List.singleton_append] at same
    obtain ⟨own, later⟩ := Lines.line_unique plain clean same
    exact ⟨own, later ▸ lays⟩
  · rintro ⟨own, lays⟩
    exact ⟨bytes, by rw [own], lays⟩

/-- A patched file is laid out as described exactly where its kept lines give their own bytes. -/
theorem lays_iff_recoded {ended : Bool} {lines : List Laid} (formed : Formed ended lines) :
    Lays lines (Text.encode (Text.joinLines ended (lines.map Laid.text))) ↔
      Recoded ended lines := by
  obtain ⟨front, tail, rfl, terminated, close⟩ := formed
  induction front with
  | nil =>
      rw [List.nil_append]
      rcases close with rfl | ⟨raw, rfl, clean, rfl⟩
      · rw [List.map_nil, Text.joinLines_nil]
        cases ended with
        | false => exact iff_of_true .nothing ⟨nofun, nofun, nofun⟩
        | true => exact iff_of_false nofun fun recoded => recoded.filled rfl rfl
      · rw [List.map_singleton, Text.joinLines_singleton, if_neg Bool.false_ne_true,
          String.append_empty, lays_single_kept_iff, recoded_single_kept_iff, if_neg clean,
          List.append_nil]
        exact ⟨fun same => ⟨same, fun _ => clean⟩, fun recoded => recoded.1⟩
  | cons line front ih =>
      have later := ih fun piece member => terminated piece (.tail _ member)
      rw [List.cons_append, List.map_cons]
      by_cases more : front ++ tail = []
      · rw [more, List.map_nil, Text.joinLines_singleton]
        cases line with
        | added text =>
            exact iff_of_true (lays_last_added ended text) ⟨by simp, by simp, by simp⟩
        | kept piece =>
            obtain ⟨raw, clean, rfl⟩ := terminated piece (List.mem_cons_self ..)
            have ends : 10 ∈ raw ++ [10] := List.mem_append_right _ (List.mem_singleton_self _)
            rw [lays_single_kept_iff, recoded_single_kept_iff, if_pos ends]
            cases ended with
            | true =>
                rw [if_pos rfl, Text.encode_string_append]
                exact ⟨fun same => ⟨same, nofun⟩, fun recoded => recoded.1⟩
            | false =>
                refine iff_of_false ?_ fun recoded => recoded.2 rfl ends
                have plain := Text.newline_not_mem_encode (Text.pieceText_clean clean).2
                rw [if_neg Bool.false_ne_true, String.append_empty, Laid.text]
                intro same
                rw [same] at plain
                exact plain ends
      · have texts : (front ++ tail).map Laid.text ≠ [] := by
          rw [Ne, List.map_eq_nil_iff]
          exact more
        have newline : Text.encode "\n" = [10] := by decide
        rw [Text.joinLines_cons ended _ texts, Text.encode_string_append,
          Text.encode_string_append, newline, recoded_cons_iff more, ← later]
        cases line with
        | added text =>
            rw [Laid.text, lays_added_iff more, and_iff_right]
            intro piece same
            cases same
        | kept piece =>
            obtain ⟨raw, clean, rfl⟩ := terminated piece (List.mem_cons_self ..)
            have ends : 10 ∈ raw ++ [10] := List.mem_append_right _ (List.mem_singleton_self _)
            have plain := Text.newline_not_mem_encode (Text.pieceText_clean clean).2
            rw [Laid.text, kept_line_iff clean plain]
            apply and_congr_left
            intro _
            constructor
            · intro same piece own
              cases own
              rw [if_pos ends]
              exact same
            · intro same
              have own := same _ rfl
              rwa [if_pos ends] at own

/-- A kept line has one terminator at most. -/
theorem Formed.shape {ended : Bool} {lines : List Laid} (formed : Formed ended lines)
    {piece : List UInt8} (member : .kept piece ∈ lines) :
    10 ∉ piece ∨ ∃ raw, 10 ∉ raw ∧ piece = raw ++ [10] := by
  obtain ⟨front, tail, rfl, terminated, close⟩ := formed
  rcases List.mem_append.mp member with above | last
  · exact .inr (terminated piece above)
  · rcases close with rfl | ⟨raw, rfl, clean, -⟩
    · exact absurd last List.not_mem_nil
    · cases List.mem_singleton.mp last
      exact .inl clean

theorem readable_iff_plain {piece : List UInt8}
    (shape : 10 ∉ piece ∨ ∃ raw, 10 ∉ raw ∧ piece = raw ++ [10]) :
    Text.encode (Text.pieceText piece) ++ (if 10 ∈ piece then [10] else []) = piece ↔
      Text.Plain piece := by
  rcases shape with clean | ⟨raw, clean, rfl⟩
  · rw [if_neg clean, List.append_nil, Text.plain_tail_iff clean]
  · rw [if_pos (List.mem_append_right _ (List.mem_singleton_self _)), Text.plain_line_iff clean]

theorem recoded_iff_untouched {ended : Bool} {lines : List Laid} (formed : Formed ended lines) :
    Recoded ended lines ↔ Untouched ended lines := by
  constructor
  · intro recoded
    refine ⟨fun piece member => ?_, recoded.ending, recoded.filled⟩
    exact (readable_iff_plain (formed.shape member)).mp (recoded.readable piece member)
  · intro untouched
    refine ⟨fun piece member => ?_, untouched.ending, untouched.filled⟩
    exact (readable_iff_plain (formed.shape member)).mpr (untouched.plain piece member)

/-- A patch keeps the bytes of every line outside its ranges exactly where these lines are valid
UTF-8, end with a newline alone, and no line loses or gains a terminator at the end of the file. -/
theorem keepsBytes_iff (host : Host) (moment : Moment) (gate : CapabilityGate) (fs : FileSystem)
    (req : FsPatchRequest) : KeepsBytes host moment gate fs req ↔
      ∀ original, Acceptable host moment gate fs req original →
        Untouched (endsWithNewline original) (laid original req.edits) := by
  have layout : ∀ original, Acceptable host moment gate fs req original →
      (Lays (laid original req.edits) (Text.encode (Text.joinLines (endsWithNewline original)
        (described original req.edits))) ↔
          Untouched (endsWithNewline original) (laid original req.edits)) := by
    intro original acceptable
    have formed := formed_laid fun edit asked => (acceptable.anchored edit asked).1
    rw [← map_text_laid, lays_iff_recoded formed, recoded_iff_untouched formed]
  constructor
  · intro keeps original acceptable
    obtain ⟨before, written, reads, wrote, lays⟩ :=
      keeps _ (patch_ok_iff.mpr ⟨original, acceptable, rfl⟩)
    rw [acceptable.reads] at reads
    obtain rfl := Except.ok.inj reads
    rw [acceptable.written] at wrote
    obtain rfl := Except.ok.inj wrote
    exact (layout original acceptable).mp lays
  · intro untouched result done
    obtain ⟨original, acceptable, rfl⟩ := patch_ok_iff.mp done
    exact ⟨original, _, acceptable.reads, acceptable.written,
      (layout original acceptable).mpr (untouched original acceptable)⟩

/-- A workspace has a file of two lines with carriage returns. -/
def windowsLines : FileSystem :=
  (FileSystem.empty.put ["w"] .dir).put ["w", "a"] (.file (Text.encode "a\r\nb\r\n"))

/-- The edit replaces the second line. -/
def replaceSecond : FsPatchRequest := ⟨"/w/a", [⟨2, none, none, ["c"]⟩]⟩

/-- The first line of the file loses its carriage return. -/
theorem replaceSecond_rewrites_first :
    ¬∀ (host : Host) (moment : Moment) (gate : CapabilityGate) (fs : FileSystem)
      (req : FsPatchRequest), KeepsBytes host moment gate fs req := by
  intro all
  have keeps := all .quiet (.quiet 0) FileOp.workspaceGate windowsLines replaceSecond
  have done : (patch .quiet (.quiet 0) FileOp.workspaceGate windowsLines replaceSecond).1 =
      .ok ⟨4, true, [⟨2, 2, 1⟩]⟩ := by decide
  obtain ⟨original, written, reads, wrote, lays⟩ := keeps _ done
  have before : windowsLines.read (.ofText replaceSecond.path) =
      .ok (Text.encode "a\r\nb\r\n") := by decide
  have after : (patch .quiet (.quiet 0) FileOp.workspaceGate windowsLines replaceSecond).2.read
      (.ofText replaceSecond.path) = .ok (Text.encode "a\nc\n") := by decide
  rw [before] at reads
  rw [after] at wrote
  have lines : laid (Text.encode "a\r\nb\r\n") replaceSecond.edits =
      [.kept [97, 13, 10], .added "c"] := by decide
  have bytes : Text.encode "a\nc\n" = [97, 10, 99, 10] := by decide
  rw [← Except.ok.inj reads, ← Except.ok.inj wrote, lines, bytes] at lays
  obtain ⟨more, same, -⟩ := lays_kept_iff.mp lays
  cases same

end Daemon.FsOps
