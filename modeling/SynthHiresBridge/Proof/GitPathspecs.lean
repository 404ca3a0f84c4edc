import SynthHiresBridge.Proof.GitOutput
import SynthHiresBridge.Data.Pathspec
import SynthHiresBridge.Data.Lines

namespace Daemon.GitOps

open Pathspec

theorem ne_of_printable {char : Char} (visible : Printable char) :
    char ≠ '\t' ∧ char ≠ '\n' ∧ char ≠ '\r' := by
  refine ⟨?_, ?_, ?_⟩ <;> rintro rfl <;> exact absurd visible (by decide)

theorem printable_digit {number : Nat} {char : Char} (member : char ∈ Nat.toDigits 10 number) :
    Printable char := by
  have own := Nat.isDigit_of_mem_toDigits (by decide) (by decide) member
  rw [Char.isDigit, Bool.and_eq_true, decide_eq_true_eq, decide_eq_true_eq] at own
  obtain ⟨low, high⟩ := own
  rw [ge_iff_le, UInt32.le_iff_toNat_le] at low
  rw [UInt32.le_iff_toNat_le] at high
  simp at low high
  rw [Printable]
  have code : char.toNat = char.val.toNat := rfl
  omega

/-- The two counts of a line are printable, and a tab follows each of them. -/
theorem front_shape (row : Row) : ∃ added deleted, row.front = added ++ '\t' :: deleted ++ ['\t'] ∧
    (∀ char ∈ added, Printable char) ∧ ∀ char ∈ deleted, Printable char := by
  rw [Row.front]
  cases row.counts with
  | none =>
      have dash : ∀ char ∈ ['-'], Printable char := Text.forall_of_all (by decide)
      exact ⟨['-'], ['-'], rfl, dash, dash⟩
  | some counts =>
      exact ⟨_, _, rfl, fun char member => printable_digit member,
        fun char member => printable_digit member⟩

theorem columns_ofList (line : List Char) :
    columns (String.ofList line) = (line.splitOn '\t').map String.ofList := by
  rw [columns, Text.split, String.toList_ofList, List.splitOn_eq_splitOnP]

/-- The two counts and the tabs after them are followed by the third column. -/
theorem third_front (row : Row) {text : List Char} (clean : '\t' ∉ text) :
    (columns (String.ofList (row.front ++ text)))[2]? = some (String.ofList text) := by
  obtain ⟨added, deleted, front, first, second⟩ := front_shape row
  have tabless : ∀ {part : List Char}, (∀ char ∈ part, Printable char) → '\t' ∉ part :=
    fun visible member => (ne_of_printable (visible _ member)).1 rfl
  have whole : row.front ++ text = added ++ '\t' :: (deleted ++ '\t' :: text) := by
    rw [front]
    simp
  rw [columns_ofList, whole, List.splitOn_append_cons_self_of_not_mem (tabless first),
    List.splitOn_append_cons_self_of_not_mem (tabless second), List.splitOn_eq_singleton clean]
  rfl

/-- A line that ends within the counts has no third column. -/
theorem third_short (row : Row) {room : Nat} (short : room < row.front.length) :
    (columns (String.ofList (row.front.take room)))[2]? = none := by
  obtain ⟨added, deleted, front, first, second⟩ := front_shape row
  have tabless : ∀ {part : List Char}, (∀ char ∈ part, Printable char) → '\t' ∉ part :=
    fun visible member => (ne_of_printable (visible _ member)).1 rfl
  have part : row.front.take room <+: added ++ '\t' :: deleted := by
    rw [front] at short ⊢
    rw [List.length_append, List.length_singleton] at short
    rw [List.take_append_of_le_length (by omega)]
    exact List.take_prefix _ _
  obtain ⟨fronts, last, large, after, cut, whole, -⟩ := @Text.splitOn_of_prefix '\t' _ _ part
  rw [List.splitOn_append_cons_self_of_not_mem (tabless first),
    List.splitOn_eq_singleton (tabless second)] at whole
  have length := congrArg List.length whole
  simp only [List.length_append, List.length_cons, List.length_nil] at length
  rw [columns_ofList, cut, List.getElem?_eq_none]
  simp only [List.length_map, List.length_append, List.length_cons, List.length_nil]
  omega

theorem front_ne_nil (row : Row) : 0 < row.front.length := by
  obtain ⟨added, deleted, front, -⟩ := front_shape row
  rw [front]
  simp

theorem listed_zero (rows : List Row) : listed 0 rows = [] := by
  cases rows with
  | nil => rfl
  | cons row rows => rw [listed, if_neg (Nat.not_le.mpr (front_ne_nil row))]

/-- No counted line has a line break before its end. -/
theorem front_text_clean (row : Row) :
    ∀ char ∈ row.front ++ row.text, char ≠ '\n' ∧ char ≠ '\r' := by
  obtain ⟨added, deleted, front, first, second⟩ := front_shape row
  intro char member
  rw [front] at member
  simp only [List.mem_append, List.mem_cons, List.not_mem_nil, or_false] at member
  rcases member with ((inside | rfl | inside) | rfl) | inside
  · exact (ne_of_printable (first char inside)).2
  · decide
  · exact (ne_of_printable (second char inside)).2
  · decide
  · exact (ne_of_printable (row.spelled.printable char inside)).2

theorem text_tabless (row : Row) : '\t' ∉ row.text :=
  fun member => (ne_of_printable (row.spelled.printable _ member)).1 rfl

/-- The only line of a text is read as it is. -/
theorem fileNames_tail {line : List Char} (clean : '\n' ∉ line) (filled : line ≠ []) :
    fileNames (String.ofList line) = ((columns (String.ofList line))[2]?).toList := by
  rw [fileNames, Text.lines_tail clean, if_neg filled, List.filterMap_cons, List.filterMap_nil]
  cases (columns (String.ofList line))[2]? <;> rfl

/-- The first line of a text may have a name. -/
theorem fileNames_line {line : List Char} (clean : '\n' ∉ line) (last : line.getLast? ≠ some '\r')
    (rest : List Char) : fileNames (String.ofList (line ++ '\n' :: rest)) =
      ((columns (String.ofList line))[2]?).toList ++ fileNames (String.ofList rest) := by
  rw [fileNames, Text.lines_line clean, (Text.stripLast_getD_eq_iff '\r' _).mpr last,
    List.filterMap_cons, fileNames]
  cases (columns (String.ofList line))[2]? <;> rfl

/-- The names of a listing within a cap. -/
theorem fileNames_numstat (room : Nat) (rows : List Row) :
    fileNames (String.ofList ((numstat rows).take room)) = (listed room rows).map String.ofList := by
  induction rows generalizing room with
  | nil =>
      rw [numstat, List.flatMap_nil, List.take_nil]
      rfl
  | cons row rows ih =>
      have clean : '\n' ∉ row.front ++ row.text :=
        fun member => (front_text_clean row _ member).1 rfl
      have whole : numstat (row :: rows) = row.front ++ row.text ++ '\n' :: numstat rows := by
        rw [numstat, List.flatMap_cons, List.append_assoc]
        rfl
      rw [whole, listed]
      rcases Nat.lt_or_ge (row.front.length + row.text.length) room with long | short
      · -- the whole line is within the cap
        obtain ⟨more, rfl⟩ := Nat.exists_eq_add_of_lt long
        have last : (row.front ++ row.text).getLast? ≠ some '\r' := fun last =>
          (front_text_clean row _ (List.mem_of_getLast? last)).2 rfl
        have cut : (row.front ++ row.text ++ '\n' :: numstat rows).take
            (row.front.length + row.text.length + more + 1) =
              row.front ++ row.text ++ '\n' :: (numstat rows).take more := by
          rw [List.take_append, List.take_of_length_le (by rw [List.length_append]; omega),
            List.length_append, show row.front.length + row.text.length + more + 1 -
              (row.front.length + row.text.length) = more + 1 by omega, List.take_succ_cons]
        have text : row.text.take (row.front.length + row.text.length + more + 1 -
            row.front.length) = row.text := List.take_of_length_le (by omega)
        have left : row.front.length + row.text.length + more + 1 -
            (row.front.length + row.text.length + 1) = more := by omega
        rw [cut, fileNames_line clean last, third_front row (text_tabless row), ih more,
          if_pos (by omega), text, left]
        rfl
      · have cut : (row.front ++ row.text ++ '\n' :: numstat rows).take room =
            (row.front ++ row.text).take room :=
          List.take_append_of_le_length (by rw [List.length_append]; exact short)
        have inside : '\n' ∉ (row.front ++ row.text).take room :=
          fun member => clean (List.mem_of_mem_take member)
        rw [cut]
        split_ifs with counted
        · -- the cap is in the text or at its end
          have parts : (row.front ++ row.text).take room =
              row.front ++ row.text.take (room - row.front.length) := by
            rw [List.take_append, List.take_of_length_le counted]
          have tabless : '\t' ∉ row.text.take (room - row.front.length) :=
            fun member => text_tabless row (List.mem_of_mem_take member)
          have over_ : room - (row.front.length + row.text.length + 1) = 0 := by omega
          have filled : row.front ++ row.text.take (room - row.front.length) ≠ [] := by
            have some := front_ne_nil row
            rw [← List.length_pos_iff, List.length_append]
            omega
          rw [parts] at inside
          rw [parts, fileNames_tail inside filled, third_front row tabless, over_, listed_zero]
          rfl
        · -- the cap is in the counts
          have short : room < row.front.length := Nat.lt_of_not_le counted
          have part : (row.front ++ row.text).take room = row.front.take room :=
            List.take_append_of_le_length (Nat.le_of_lt short)
          rw [part] at inside
          rw [part]
          rcases Nat.eq_zero_or_pos room with rfl | some
          · rfl
          · have filled : row.front.take room ≠ [] := by
              rw [← List.length_pos_iff, List.length_take]
              omega
            rw [fileNames_tail inside filled, third_short row short]
            rfl

theorem ascii_of_printable {char : Char} (visible : Printable char) : char.toNat < 128 :=
  Nat.lt_trans visible.2 (by decide)

theorem ascii_numstat (rows : List Row) : ∀ char ∈ numstat rows, char.toNat < 128 := by
  intro char member
  obtain ⟨row, -, inside⟩ := List.mem_flatMap.mp member
  obtain ⟨added, deleted, front, first, second⟩ := front_shape row
  rw [front] at inside
  simp only [List.mem_append, List.mem_cons, List.not_mem_nil, or_false] at inside
  rcases inside with (((inside | rfl | inside) | rfl) | inside) | rfl
  · exact ascii_of_printable (first char inside)
  · decide
  · exact ascii_of_printable (second char inside)
  · decide
  · exact ascii_of_printable (row.spelled.printable char inside)
  · decide

/-- A listing is ASCII, so the cap never falls inside a character. -/
theorem runGit_numstat (rows : List Row) (stderr : List UInt8) :
    runGit (.exited true (Text.encode (String.ofList (numstat rows))) stderr) =
      .ok (String.ofList ((numstat rows).take maxOutputBytes)) := by
  have ascii := ascii_numstat rows
  have part : ∀ char ∈ (numstat rows).take maxOutputBytes, char.toNat < 128 :=
    fun char member => ascii char (List.mem_of_mem_take member)
  apply runGit_exited
  rw [Text.encode_ascii ascii, ← List.map_take, ← Text.encode_ascii part, Text.strict_encode]

def bytes (text : List Char) : Name := Text.encode (String.ofList text)

/-- These pathspecs are asked for when git lists these files. -/
def specsOf (maxFiles : Nat) (rows : List Row) : List Name :=
  ((listed maxOutputBytes rows).take maxFiles).map bytes

/-- A file is asked for by its own name: it was not renamed, no byte of its name is quoted, and the
name is within the cap. -/
def OwnName (row : Row) (spec : Name) : Prop :=
  row.old = none ∧ row.name.all isPlain = true ∧ spec = row.name ∧ spec.head? ≠ some 0x3A

/-- A file is found through the name of another one, through a part of its own text, or through a
pattern. -/
def FoundOtherwise (rules : Rules) (specs : List Name) (index : Nat) (row : Row) : Prop :=
  ∃ place spec, specs[place]? = some spec ∧ rules.Includes spec row.name ∧
    (place ≠ index ∨ spec ≠ bytes row.text ∨ Pattern spec)

/-- Git takes all pathspecs, and each file that is asked for is kept by them and either has its own
name there or is found otherwise. -/
def AllFound (rules : Rules) (specs : List Name) (rows : List Row) : Prop :=
  rules.Accepts specs ∧ ∀ index row spec, rows[index]? = some row → specs[index]? = some spec →
    rules.Keeps specs row.name ∧
      (OwnName row spec ∨ FoundOtherwise rules specs index row ∨ rules.OnlyExcludes specs)

theorem length_bytes {text : List Char} (visible : ∀ char ∈ text, Printable char) :
    (bytes text).length = text.length := by
  rw [bytes, Text.encode_ascii fun char member => ascii_of_printable (visible char member),
    List.length_map]

theorem bytes_map {name : Name} (plain : name.all isPlain = true) :
    bytes (name.map char) = name := by
  rw [bytes, Text.encode_ascii fun char member => ascii_of_printable (printable_map plain char member),
    List.map_map]
  refine (List.map_congr_left (g := id) ?_).trans (List.map_id name)
  intro byte member
  have range := (isPlain_iff.mp (List.all_eq_true.mp plain byte member)).1
  rw [Function.comp_apply, toNat_char range.2]
  exact UInt8.ofNat_toNat

/-- The text of a file reaches the file only where it is its name. -/
theorem ownName_of_reaches {row : Row} (reached : reaches (bytes row.text) row.name = true)
    (colonless : (bytes row.text).head? ≠ some 0x3A) : OwnName row (bytes row.text) := by
  rcases row.spelled.own_or_longer with ⟨unmoved, plain, same⟩ | longer
  · refine ⟨unmoved, plain, ?_, colonless⟩
    rw [same, bytes_map plain]
  · have length := reaches_length reached
    rw [length_bytes row.spelled.printable] at length
    exact absurd longer (Nat.not_lt.mpr length)

/-- A file is selected exactly where it has its own name or is found otherwise. -/
theorem selects_row_iff (rules : Rules) {specs : List Name} {index : Nat} {row : Row} {spec : Name}
    (accepts : rules.Accepts specs) (here : specs[index]? = some spec) :
    rules.selects specs row.name = true ↔ rules.Keeps specs row.name ∧
      (OwnName row spec ∨ FoundOtherwise rules specs index row ∨ rules.OnlyExcludes specs) := by
  have member := List.mem_of_getElem? here
  have filled : ∀ other ∈ specs, other ≠ [] := by
    rintro other inside rfl
    have own := accepts [] inside
    rw [Rules.element, if_pos rfl] at own
    cases own
  rw [Rules.selects_iff, and_iff_right accepts]
  refine and_congr_right fun _ => ?_
  constructor
  · rintro (only | ⟨other, inside, included⟩)
    · exact .inr (.inr only)
    · obtain ⟨place, found⟩ := List.getElem?_of_mem inside
      by_cases elsewhere : place ≠ index ∨ other ≠ bytes row.text ∨ Pattern other
      · exact .inr (.inl ⟨place, other, found, included, elsewhere⟩)
      · -- the whole text of the file, read literally
        simp only [not_or, not_not] at elsewhere
        obtain ⟨rfl, rfl, literal⟩ := elsewhere
        obtain ⟨colonless, tame⟩ := not_or.mp literal
        obtain rfl := Option.some.inj (here.symm.trans found)
        obtain ⟨element, known, -, covers⟩ := included
        rw [rules.element_literal (filled _ inside) colonless] at known
        obtain rfl := Option.some.inj known
        rw [Bool.not_eq_true] at tame
        simp only [tame, Bool.false_and, Bool.or_false] at covers
        exact .inl (ownName_of_reaches covers colonless)
  · rintro (⟨-, -, same, colonless⟩ | ⟨place, other, found, included, -⟩ | only)
    · refine .inr ⟨spec, member, _, rules.element_literal (filled spec member) colonless, rfl, ?_⟩
      simp only [same, reaches_self, Bool.true_or]
    · exact .inr ⟨other, List.mem_of_getElem? found, included⟩
    · exact .inl only

theorem length_listed (room : Nat) (rows : List Row) : (listed room rows).length ≤ rows.length := by
  induction rows generalizing room with
  | nil => exact Nat.le_refl 0
  | cons row rows ih =>
      rw [listed]
      split_ifs
      · exact Nat.succ_le_succ (ih _)
      · exact Nat.zero_le _

/-- Every file that is counted and shown has a pathspec of its own. -/
theorem length_specsOf (maxFiles : Nat) (rows : List Row) :
    (specsOf maxFiles rows).length = min maxFiles (listed maxOutputBytes rows).length := by
  rw [specsOf, List.length_map, List.length_take]

theorem selects_rows_iff (rules : Rules) (maxFiles : Nat) (rows : List Row) :
    (∀ index row, rows[index]? = some row → index < maxFiles →
        index < (listed maxOutputBytes rows).length →
        rules.selects (specsOf maxFiles rows) row.name = true) ↔
      AllFound rules (specsOf maxFiles rows) rows := by
  have length := length_specsOf maxFiles rows
  have fewer := length_listed maxOutputBytes rows
  constructor
  · intro selected
    have accepts : rules.Accepts (specsOf maxFiles rows) := by
      intro spec member
      have filled := List.length_pos_of_mem member
      have first : rows[0]? = some rows[0] := List.getElem?_eq_getElem (by omega)
      have own := selected 0 _ first (by omega) (by omega)
      exact ((rules.selects_iff _ _).mp own).1 spec member
    refine ⟨accepts, fun index row spec here found => ?_⟩
    have inside := (List.getElem?_eq_some_iff.mp found).1
    exact (selects_row_iff rules accepts found).mp
      (selected index row here (by omega) (by omega))
  · rintro ⟨accepts, every⟩ index row here shown counted
    have found : (specsOf maxFiles rows)[index]? = some (specsOf maxFiles rows)[index] :=
      List.getElem?_eq_getElem (by omega)
    exact (selects_row_iff rules accepts found).mpr (every index row _ here found)

theorem asked_numstat (maxFiles : Nat) (rows : List Row) :
    (planOf (String.ofList ((numstat rows).take maxOutputBytes)) maxFiles).asked.map Text.encode =
      specsOf maxFiles rows := by
  rw [asked_planOf, fileNames_numstat, ← List.map_take, List.map_map]
  rfl

theorem filesChanged_numstat (maxFiles : Nat) (rows : List Row) :
    (planOf (String.ofList ((numstat rows).take maxOutputBytes)) maxFiles).filesChanged =
      (listed maxOutputBytes rows).length := by
  rw [filesChanged_planOf, fileNames_numstat, List.length_map]

/-- A diff asks git for the hunks of every file that it counts and shows exactly where all these
files have their own name in the request or are found otherwise. -/
theorem diff_shows_counted_iff (rules : Rules) {rows : List Row} {gate : CapabilityGate}
    {host : GitHost} {request : GitDiffRequest} {root : Posix.PathBuf} {target : String}
    {errors : List UInt8} (chosen : request.target.getD "unstaged" = target)
    (valid : invalidTarget target = false) (resolved : gateRepo gate host request.path = .ok root)
    (listing : host.git root (statArgs target) =
      .exited true (Text.encode (String.ofList (numstat rows))) errors) :
    let plan := planOf (String.ofList ((numstat rows).take maxOutputBytes))
      (clampFiles request.maxFiles)
    diff gate host request = diffBody (host.git root) target plan ∧
      ((∀ index row, rows[index]? = some row → index < clampFiles request.maxFiles →
          index < plan.filesChanged → rules.selects (plan.asked.map Text.encode) row.name = true) ↔
        AllFound rules (specsOf (clampFiles request.maxFiles) rows) rows) := by
  intro plan
  constructor
  · rw [← chosen] at valid listing ⊢
    apply diff_eq resolved valid
    rw [listing, runGit_numstat]
  · rw [asked_numstat, filesChanged_numstat]
    exact selects_rows_iff rules _ rows

/-- A file was renamed and changed. -/
def renamedRow : Row where
  counts := some (1, 1)
  old := some [0x61]
  name := [0x62]
  text := "a => b".toList
  spelled := .arrow [0x61] [0x62]

/-- The name of a changed file has a letter with an accent. -/
def accentRow : Row where
  counts := some (1, 0)
  old := none
  name := [0xC3, 0xA9]
  text := "\"\\303\\251\"".toList
  spelled := .own [0xC3, 0xA9]

/-- No name here matches a pattern, and none begins with a colon. -/
def plainRules : Rules := ⟨fun _ _ => false, fun _ => none⟩

def listingHost (rows : List Row) : GitHost where
  currentDir := .ok ⟨.root, [], .plain⟩
  git _ args :=
    if args = ["rev-parse", "--show-toplevel"] then .exited true (Text.encode "/r\n") []
    else if args = ["diff", "--numstat"] then
      .exited true (Text.encode (String.ofList (numstat rows))) []
    else .exited true [] []
  debug target := target

theorem diff_shows_counted_renamed :
    let plan := planOf (String.ofList ((numstat [renamedRow]).take maxOutputBytes)) 40
    diff repoGate (listingHost [renamedRow]) oneFileRequest =
        diffBody ((listingHost [renamedRow]).git oneFileRoot) "unstaged" plan ∧
      ((∀ index row, [renamedRow][index]? = some row → index < 40 → index < plan.filesChanged →
          plainRules.selects (plan.asked.map Text.encode) row.name = true) ↔
        AllFound plainRules (specsOf 40 [renamedRow]) [renamedRow]) := by
  have chosen : oneFileRequest.target.getD "unstaged" = "unstaged" := rfl
  have resolved : gateRepo repoGate (listingHost [renamedRow]) oneFileRequest.path =
      .ok oneFileRoot := rfl
  have listing : (listingHost [renamedRow]).git oneFileRoot (statArgs "unstaged") =
      .exited true (Text.encode (String.ofList (numstat [renamedRow]))) [] := rfl
  exact diff_shows_counted_iff plainRules chosen (by decide) resolved listing

/-- A renamed file and a file with an accent in its name are counted, and the request leaves both
out. -/
theorem counted_files_missing :
    let plan := planOf (String.ofList ((numstat [renamedRow, accentRow]).take maxOutputBytes)) 40
    diff repoGate (listingHost [renamedRow, accentRow]) oneFileRequest =
        diffBody ((listingHost [renamedRow, accentRow]).git oneFileRoot) "unstaged" plan ∧
      plan.filesChanged = 2 ∧
      plainRules.selects (plan.asked.map Text.encode) renamedRow.name = false ∧
      plainRules.selects (plan.asked.map Text.encode) accentRow.name = false := by
  have resolved : gateRepo repoGate (listingHost [renamedRow, accentRow]) oneFileRequest.path =
      .ok oneFileRoot := rfl
  have listing : runGit ((listingHost [renamedRow, accentRow]).git oneFileRoot
      (statArgs "unstaged")) =
        .ok (String.ofList ((numstat [renamedRow, accentRow]).take maxOutputBytes)) :=
    runGit_numstat [renamedRow, accentRow] []
  exact ⟨diff_eq resolved (by decide) listing, by decide, by decide, by decide⟩

end Daemon.GitOps
