import SynthHiresBridge.Data.Text

namespace Lines

variable {Item : Type*} [DecidableEq Item]

/-- Pieces of a list keep the terminator that ends them. -/
def pieces (stop : Item) : List Item → List (List Item)
  | [] => []
  | item :: rest =>
      if item = stop then [item] :: pieces stop rest
      else match pieces stop rest with
        | [] => [[item]]
        | piece :: more => (item :: piece) :: more

/-- A list is a rest without a terminator, or a line with its terminator comes first. -/
theorem lineInduction (stop : Item) {motive : List Item → Prop}
    (tail : ∀ rest, stop ∉ rest → motive rest)
    (line : ∀ front rest, stop ∉ front → motive rest → motive (front ++ stop :: rest)) :
    ∀ list, motive list := by
  intro list
  have all : ∀ front, stop ∉ front → motive (front ++ list) := by
    induction list with
    | nil =>
        intro front clean
        rw [List.append_nil]
        exact tail front clean
    | cons item rest ih =>
        intro front clean
        by_cases same : item = stop
        · rw [same]
          exact line front rest clean (ih [] List.not_mem_nil)
        · rw [← List.singleton_append, ← List.append_assoc]
          apply ih
          rw [List.mem_append, List.mem_singleton, not_or]
          exact ⟨clean, fun here => same here.symm⟩
  exact all [] List.not_mem_nil

theorem pieces_line {stop : Item} {front : List Item} (clean : stop ∉ front) (rest : List Item) :
    pieces stop (front ++ stop :: rest) = (front ++ [stop]) :: pieces stop rest := by
  induction front with
  | nil => rw [List.nil_append, pieces, if_pos rfl, List.nil_append]
  | cons item front ih =>
      obtain ⟨other, later⟩ := not_or.mp (List.mem_cons.not.mp clean)
      rw [List.cons_append, pieces, if_neg (Ne.symm other), ih later, List.cons_append]

theorem pieces_tail {stop : Item} {rest : List Item} (clean : stop ∉ rest) :
    pieces stop rest = if rest = [] then [] else [rest] := by
  induction rest with
  | nil => rfl
  | cons item rest ih =>
      obtain ⟨other, later⟩ := not_or.mp (List.mem_cons.not.mp clean)
      rw [pieces, if_neg (Ne.symm other), ih later, if_neg (List.cons_ne_nil item rest)]
      cases rest with
      | nil => rfl
      | cons next rest => rw [if_neg (List.cons_ne_nil next rest)]

/-- The pieces of a list give it again. -/
theorem flatten_pieces (stop : Item) (list : List Item) : (pieces stop list).flatten = list := by
  induction list using lineInduction stop with
  | tail rest clean =>
      rw [pieces_tail clean]
      split_ifs with empty
      · exact empty.symm
      · exact List.append_nil rest
  | line front rest clean ih =>
      rw [pieces_line clean, List.flatten_cons, ih, List.append_assoc, List.singleton_append]

/-- Lines with their terminators stand before whatever comes next. -/
theorem pieces_append {stop : Item} {lines : List (List Item)}
    (clean : ∀ line ∈ lines, stop ∉ line) (rest : List Item) :
    pieces stop (lines.flatMap (· ++ [stop]) ++ rest) =
      lines.map (· ++ [stop]) ++ pieces stop rest := by
  induction lines with
  | nil => rfl
  | cons line lines ih =>
      obtain ⟨here, later⟩ := List.forall_mem_cons.mp clean
      rw [List.flatMap_cons, List.append_assoc, List.append_assoc, List.singleton_append,
        pieces_line here, ih later, List.map_cons, List.cons_append]

/-- The first line of a list is unique. -/
theorem line_unique {stop : Item} {front other rest more : List Item} (clean : stop ∉ front)
    (also : stop ∉ other) (same : front ++ stop :: rest = other ++ stop :: more) :
    front = other ∧ rest = more := by
  have cut := congrArg (pieces stop) same
  rw [pieces_line clean, pieces_line also] at cut
  have own := List.append_cancel_right (List.cons.inj cut).1
  rw [own] at same
  exact ⟨own, (List.cons.inj (List.append_cancel_left same)).2⟩

/-- A list is lines with their terminators and a rest without one. -/
theorem pieces_shape (stop : Item) (list : List Item) :
    ∃ (lines : List (List Item)) (tail : List Item), (∀ line ∈ lines, stop ∉ line) ∧ stop ∉ tail ∧ list = lines.flatMap (· ++ [stop]) ++ tail ∧
      pieces stop list = lines.map (· ++ [stop]) ++ if tail = [] then [] else [tail] := by
  induction list using lineInduction stop with
  | tail rest clean => exact ⟨[], rest, by simp, clean, rfl, pieces_tail clean⟩
  | line front rest clean ih =>
      obtain ⟨lines, tail, cleans, open_, same, cut⟩ := ih
      refine ⟨front :: lines, tail, List.forall_mem_cons.mpr ⟨clean, cleans⟩, open_, ?_, ?_⟩
      · rw [same, List.flatMap_cons, List.append_assoc, List.append_assoc, List.singleton_append]
      · rw [pieces_line clean, cut, List.map_cons, List.cons_append]

end Lines

namespace Text

theorem splitInclusive_eq (chars : List Char) :
    splitInclusive chars = Lines.pieces '\n' chars := by
  induction chars with
  | nil => rfl
  | cons char rest ih =>
      rw [splitInclusive, Lines.pieces, ih]
      cases Lines.pieces '\n' rest with
      | nil => rfl
      | cons piece more => rfl

/-- The text of a piece without its terminator. -/
def unterminated (piece : List Char) : List Char :=
  match stripLast '\n' piece with
  | none => piece
  | some line => (stripLast '\r' line).getD line

theorem lines_eq (text : String) :
    lines text = (Lines.pieces '\n' text.toList).map fun piece =>
      String.ofList (unterminated piece) := by
  rw [lines, splitInclusive_eq]
  rfl

/-- A line is its characters up to the newline, without a carriage return there. -/
theorem unterminated_line (line : List Char) :
    unterminated (line ++ ['\n']) = (stripLast '\r' line).getD line := by
  rw [unterminated, stripLast, List.getLast?_append_of_ne_nil _ (List.cons_ne_nil _ _)]
  simp

theorem unterminated_tail {rest : List Char} (clean : '\n' ∉ rest) : unterminated rest = rest := by
  have other : rest.getLast? ≠ some '\n' := fun last => clean (List.mem_of_getLast? last)
  rw [unterminated, stripLast, if_neg other]

/-- A carriage return is dropped exactly where it is the last character. -/
theorem stripLast_getD_eq_iff (char : Char) (line : List Char) :
    (stripLast char line).getD line = line ↔ line.getLast? ≠ some char := by
  rw [stripLast]
  split_ifs with last
  · have shorter : line.dropLast ≠ line := by
      intro same
      have lengths := congrArg List.length same
      rw [List.length_dropLast] at lengths
      have filled : line ≠ [] := by
        rintro rfl
        cases last
      have := List.length_pos_iff.mpr filled
      omega
    exact iff_of_false shorter (fun other => other last)
  · exact iff_of_true rfl last

theorem lines_line {front : List Char} (clean : '\n' ∉ front) (rest : List Char) :
    lines (String.ofList (front ++ '\n' :: rest)) =
      String.ofList ((stripLast '\r' front).getD front) :: lines (String.ofList rest) := by
  rw [lines_eq, lines_eq, String.toList_ofList, String.toList_ofList, Lines.pieces_line clean,
    List.map_cons, unterminated_line]

theorem lines_tail {rest : List Char} (clean : '\n' ∉ rest) :
    lines (String.ofList rest) = if rest = [] then [] else [String.ofList rest] := by
  rw [lines_eq, String.toList_ofList, Lines.pieces_tail clean]
  split_ifs with empty
  · rfl
  · rw [List.map_singleton, unterminated_tail clean]

/-- No line holds a newline. -/
theorem lines_clean (text : String) : ∀ line ∈ lines text, '\n' ∉ line.toList := by
  rw [← String.ofList_toList (s := text)]
  induction text.toList using Lines.lineInduction '\n' with
  | tail rest clean =>
      rw [lines_tail clean]
      split_ifs with empty
      · simp
      · intro line member
        rw [List.mem_singleton.mp member, String.toList_ofList]
        exact clean
  | line front rest clean ih =>
      rw [lines_line clean]
      intro line member
      rcases List.mem_cons.mp member with rfl | later
      · rw [String.toList_ofList, stripLast]
        split_ifs with last
        · exact fun member => clean (List.dropLast_subset front member)
        · exact clean
      · exact ih line later

/-- Lines become a text with a newline between them, and after the last one where the text ended
with one. -/
def joinLines (ended : Bool) (lines : List String) : String :=
  String.intercalate "\n" lines ++ (if ended then "\n" else "")

/-- Lines that are found again after they were joined. -/
def Survives (ended : Bool) (lines : List String) : Prop :=
  (∀ line ∈ lines, '\n' ∉ line.toList) ∧
    (∀ line ∈ if ended then lines else lines.dropLast, line.toList.getLast? ≠ some '\r') ∧
    if ended then lines ≠ [] else lines.getLast? ≠ some ""

theorem joinLines_nil (ended : Bool) : joinLines ended [] = if ended then "\n" else "" := by
  rw [joinLines, String.intercalate_nil, String.empty_append]

/-- Without a newline at the end, the last line has none. -/
theorem joinLines_open (lines : List String) (last : String) :
    joinLines false (lines ++ [last]) =
      String.ofList ((lines.map String.toList).flatMap (· ++ ['\n']) ++ last.toList) := by
  have plain : joinLines false (lines ++ [last]) = String.intercalate "\n" (lines ++ [last]) :=
    String.append_empty
  rw [plain]
  induction lines with
  | nil =>
      rw [List.nil_append, String.intercalate_singleton]
      exact String.ofList_toList.symm
  | cons line lines ih =>
      rw [List.cons_append, String.intercalate_cons_of_ne_nil (by simp), ih]
      · apply String.toList_inj.mp
        simp only [String.toList_append, String.toList_ofList, List.map_cons, List.flatMap_cons,
          List.append_assoc]
        rfl
      · exact String.append_empty

/-- A text that ends with a newline has one after each line. -/
theorem joinLines_ended {lines : List String} (filled : lines ≠ []) : joinLines true lines =
    String.ofList ((lines.map String.toList).flatMap (· ++ ['\n'])) := by
  obtain ⟨front, last, rfl⟩ := (List.eq_nil_or_concat' lines).resolve_left filled
  have more : joinLines true (front ++ [last]) = joinLines false (front ++ [last]) ++ "\n" := by
    simp [joinLines]
  rw [more, joinLines_open]
  apply String.toList_inj.mp
  simp

/-- The text of lines is cut into these lines. -/
theorem lines_flatMap {texts : List String} (clean : ∀ line ∈ texts, '\n' ∉ line.toList)
    (rest : List Char) :
    lines (String.ofList ((texts.map String.toList).flatMap (· ++ ['\n']) ++ rest)) =
      (texts.map fun line => String.ofList ((stripLast '\r' line.toList).getD line.toList)) ++
        lines (String.ofList rest) := by
  induction texts with
  | nil => rfl
  | cons line texts ih =>
      obtain ⟨here, later⟩ := List.forall_mem_cons.mp clean
      rw [List.map_cons, List.flatMap_cons, List.append_assoc, List.append_assoc,
        List.singleton_append, lines_line here, ih later, List.map_cons, List.cons_append]

/-- Lines stay as they are exactly where none ends with a carriage return. -/
theorem map_stripped_eq_iff (texts : List String) :
    (texts.map fun line => String.ofList ((stripLast '\r' line.toList).getD line.toList)) = texts ↔
      ∀ line ∈ texts, line.toList.getLast? ≠ some '\r' := by
  induction texts with
  | nil => simp
  | cons line texts ih =>
      rw [List.map_cons, List.cons.injEq, ih, List.forall_mem_cons, ← stripLast_getD_eq_iff]
      apply and_congr_left
      intro _
      rw [← String.toList_inj, String.toList_ofList]

/-- Joined lines are read again exactly where they survive. -/
theorem lines_joinLines_iff (ended : Bool) (texts : List String) :
    lines (joinLines ended texts) = texts ↔ Survives ended texts := by
  by_cases clean : ∀ line ∈ texts, '\n' ∉ line.toList
  · cases ended with
    | true =>
        by_cases filled : texts = []
        · subst filled
          rw [joinLines_nil]
          exact iff_of_false (by decide) (fun survives => survives.2.2 rfl)
        · have cut := lines_flatMap clean []
          have nothing : lines (String.ofList []) = [] := rfl
          rw [List.append_nil, nothing, List.append_nil] at cut
          rw [joinLines_ended filled, cut, map_stripped_eq_iff]
          exact ⟨fun kept => ⟨clean, kept, filled⟩, fun survives => survives.2.1⟩
    | false =>
        rcases List.eq_nil_or_concat' texts with rfl | ⟨front, last, rfl⟩
        · rw [joinLines_nil]
          refine iff_of_true rfl ⟨clean, ?_, ?_⟩
          · exact fun line member => absurd member List.not_mem_nil
          · exact fun same => by cases same
        · have fronts : ∀ line ∈ front, '\n' ∉ line.toList := fun line member =>
            clean line (List.mem_append_left _ member)
          have lasts : '\n' ∉ last.toList := clean last (by simp)
          rw [joinLines_open, lines_flatMap fronts, lines_tail lasts]
          simp only [Survives, Bool.false_eq_true, if_false, List.dropLast_concat,
            List.getLast?_concat]
          split_ifs with empty
          · refine iff_of_false ?_ ?_
            · intro same
              have lengths := congrArg List.length same
              simp at lengths
            · intro survives
              exact survives.2.2 (congrArg some (String.toList_inj.mp empty))
          · rw [String.ofList_toList, List.append_left_inj, map_stripped_eq_iff]
            refine ⟨fun kept => ⟨clean, kept, ?_⟩, fun survives => survives.2.1⟩
            intro same
            apply empty
            rw [Option.some.inj same]
            rfl
  · refine iff_of_false ?_ (fun survives => clean survives.1)
    intro same
    apply clean
    rw [← same]
    exact lines_clean _

theorem joinLines_singleton (ended : Bool) (line : String) :
    joinLines ended [line] = line ++ if ended then "\n" else "" := by
  rw [joinLines, String.intercalate_singleton]

theorem joinLines_cons (ended : Bool) (line : String) {rest : List String} (more : rest ≠ []) :
    joinLines ended (line :: rest) = line ++ "\n" ++ joinLines ended rest := by
  rw [joinLines, joinLines, String.intercalate_cons_of_ne_nil more, String.append_assoc]

end Text

namespace Lines

variable {Item : Type*} [DecidableEq Item]

/-- The pieces that are complete, and the items after the last terminator. -/
structure Reader (Item : Type*) where
  done : List (List Item)
  held : List Item

def Reader.take (stop : Item) (reader : Reader Item) (item : Item) : Reader Item :=
  if item = stop then ⟨reader.done ++ [reader.held ++ [item]], []⟩
  else { reader with held := reader.held ++ [item] }

def Reader.read (stop : Item) (reader : Reader Item) (items : List Item) : Reader Item :=
  items.foldl (Reader.take stop) reader

/-- At the end of a stream the items after the last terminator are a piece of their own. -/
def Reader.finish (reader : Reader Item) : List (List Item) :=
  if reader.held = [] then reader.done else reader.done ++ [reader.held]

/-- A buffered reader gives its pieces however the stream is split into reads. -/
def readPieces (stop : Item) (reads : List (List Item)) : List (List Item) :=
  (reads.foldl (Reader.read stop) ⟨[], []⟩).finish

theorem Reader.read_finish (stop : Item) (items : List Item) (done : List (List Item))
    {held : List Item} (clean : stop ∉ held) :
    (Reader.read stop ⟨done, held⟩ items).finish = done ++ pieces stop (held ++ items) := by
  induction items generalizing done held with
  | nil =>
      rw [List.append_nil, pieces_tail clean, Reader.read, List.foldl_nil, Reader.finish]
      split_ifs
      · rw [List.append_nil]
      · rfl
  | cons item rest ih =>
      have step : Reader.read stop ⟨done, held⟩ (item :: rest) =
          Reader.read stop (Reader.take stop ⟨done, held⟩ item) rest := rfl
      rw [step, Reader.take]
      split_ifs with ends
      · rw [ih _ List.not_mem_nil, List.nil_append, ends, pieces_line clean, List.append_assoc]
        rfl
      · have still : stop ∉ held ++ [item] := by
          rw [List.mem_append, List.mem_singleton, not_or]
          exact ⟨clean, fun same => ends same.symm⟩
        rw [ih _ still, List.append_assoc, List.singleton_append]

/-- The pieces do not depend on how the stream is split. -/
theorem readPieces_eq (stop : Item) (reads : List (List Item)) :
    readPieces stop reads = pieces stop reads.flatten := by
  have whole : reads.foldl (Reader.read stop) ⟨[], []⟩ = Reader.read stop ⟨[], []⟩ reads.flatten := by
    rw [Reader.read, List.foldl_flatten]
    rfl
  rw [readPieces, whole, Reader.read_finish stop _ _ List.not_mem_nil]
  rfl

end Lines
