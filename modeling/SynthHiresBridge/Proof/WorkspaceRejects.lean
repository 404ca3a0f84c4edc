import SynthHiresBridge.Proof.WorkspaceRuns

namespace Daemon.LspOps

open Json Posix

/-- The start of a range comes after its end in lines and columns. -/
def Inverted (item : Value) : Prop :=
  position item ["range", "end", "line"] < position item ["range", "start", "line"] ∨
    (position item ["range", "end", "line"] = position item ["range", "start", "line"] ∧
      position item ["range", "end", "character"] < position item ["range", "start", "character"])

/-- A target has an address that is no file, a path that is not granted or a file that cannot be
read. -/
def Refused (gate : CapabilityGate) (fs : FileSystem) (target : String × List Value) : Prop :=
  uriToPath target.1 = none ∨ ∃ path, uriToPath target.1 = some path ∧
    (ensurePath gate "desktop.fs.write" path ≠ .ok () ∨
      ∀ source, readToString fs path ≠ .ok source)

/-- A target is refused, has an inverted range, or leads to a file with overlapping edits. -/
def Invalid (gate : CapabilityGate) (fs : FileSystem) (edit : Value) : Prop :=
  ∃ target ∈ workspaceEditTargets edit, Refused gate fs target ∨
    (∃ item ∈ target.2, Inverted item) ∨ ∃ path source entry, uriToPath target.1 = some path ∧
      readToString fs path = .ok source ∧ fs.entryOf (.ofText path) = .ok entry ∧
        ¬(editsAt fs edit entry source).Pairwise Splice.Apart

/-- The bytes that a text edit is converted to. -/
def byteEdit (source : String) (item : Value) : Splice.Edit UInt8 :=
  ⟨linecolToByte source (position item ["range", "start", "line"])
      (position item ["range", "start", "character"]),
    linecolToByte source (position item ["range", "end", "line"])
      (position item ["range", "end", "character"]),
    Text.encode (((item.get "newText").bind Value.asStr).getD "")⟩

/-- A target is refused, or its bytes show an inverted range or overlapping edits. -/
def Detected (gate : CapabilityGate) (fs : FileSystem) (edit : Value) : Prop :=
  ∃ target ∈ workspaceEditTargets edit, Refused gate fs target ∨ ∃ path source,
    uriToPath target.1 = some path ∧ readToString fs path = .ok source ∧
      ((∃ item ∈ target.2, (byteEdit source item).stop < (byteEdit source item).start) ∨
        ¬(target.2.map (byteEdit source)).Pairwise Splice.Apart)

/-- An invalid edit gives an error and changes nothing. -/
def RejectsInvalid (gate : CapabilityGate) (fs : FileSystem) (edit : Value) : Prop :=
  Invalid gate fs edit → ∃ error, applyWorkspaceEdit gate fs edit = (.error error, fs)

/-- A position is converted to a byte of its source. -/
theorem linecolToByte_le (source : String) (line character : Nat) :
    linecolToByte source line character ≤ (Text.encode source).length := by
  have whole : (Text.encode source).length = byteLength source.toList := rfl
  rw [linecolToByte_eq, whole]
  cases found : lineAt source line with
  | none => exact Nat.le_refl _
  | some text =>
      obtain ⟨rest, cut⟩ := lineAt_split found
      obtain ⟨front, more, split, offset⟩ := utf16ToByteOffset_boundary character text
      have start : lineStart source line =
          byteLength ((Text.splitInclusive source.toList).take line).flatten := rfl
      rw [cut, byteLength_append, byteLength_append, split, byteLength_append, ← split]
      simp only [offset, start]
      omega

theorem rangeEdit_ok_iff {uri source : String} {item : Value} :
    (∃ range, rangeEdit uri source item = .ok range) ↔
      (byteEdit source item).start ≤ (byteEdit source item).stop := by
  have bounded := linecolToByte_le source (position item ["range", "end", "line"])
    (position item ["range", "end", "character"])
  constructor
  · rintro ⟨range, done⟩
    obtain ⟨within, rfl⟩ := rangeEdit_ok done
    exact within.1
  · intro ordered
    refine ⟨⟨(byteEdit source item).start, (byteEdit source item).stop,
      ((item.get "newText").bind Value.asStr).getD ""⟩, ?_⟩
    rw [rangeEdit]
    refine if_neg ?_
    rw [Bool.or_eq_true, not_or, decide_eq_true_eq, decide_eq_true_eq, Nat.not_lt, Nat.not_lt]
    exact ⟨ordered, bounded⟩

theorem Planned.byteEdits {gate : CapabilityGate} {fs : FileSystem}
    {target : String × List Value} {file : PlannedFile} (planned : Planned gate fs target file) :
    file.edits = target.2.map (byteEdit file.source) := by
  rw [PlannedFile.edits]
  have converted := planned.ranges
  generalize target.2 = items at converted
  generalize file.ranges = ranges at converted
  induction converted with
  | nil => rfl
  | cons done _ ih =>
      obtain ⟨-, rfl⟩ := rangeEdit_ok done
      rw [List.map_cons, List.map_cons, ih]
      rfl

/-- A planned target is not refused, and its bytes show no inverted range and no overlap. -/
theorem Planned.shows_nothing {gate : CapabilityGate} {fs : FileSystem}
    {target : String × List Value} {file : PlannedFile} (planned : Planned gate fs target file)
    (apart : ¬Overlaps file) : ¬Refused gate fs target ∧ ∀ path source,
      uriToPath target.1 = some path → readToString fs path = .ok source →
        (∀ item ∈ target.2, (byteEdit source item).start ≤ (byteEdit source item).stop) ∧
          (target.2.map (byteEdit source)).Pairwise Splice.Apart := by
  have ordered : ∀ range ∈ file.ranges, range.start ≤ range.stop := fun range member =>
    (planned.within range.edit (List.mem_map_of_mem member)).1
  constructor
  · rintro (unnamed | ⟨path, named, denied | unread⟩)
    · rw [planned.named] at unnamed
      cases unnamed
    · obtain rfl := Option.some.inj (planned.named.symm.trans named)
      exact denied planned.granted
    · obtain rfl := Option.some.inj (planned.named.symm.trans named)
      exact unread file.source planned.source
  · intro path source named read
    obtain rfl := Option.some.inj (planned.named.symm.trans named)
    obtain rfl := Except.ok.inj (planned.source.symm.trans read)
    refine ⟨fun item member => ?_, ?_⟩
    · obtain ⟨range, -, done⟩ := planned.ranges.exists_right member
      exact rangeEdit_ok_iff.mp ⟨range, done⟩
    · rw [← planned.byteEdits]
      exact (not_overlaps_iff ordered).mp apart

/-- A target that shows nothing is planned. -/
theorem planned_of_shows_nothing {gate : CapabilityGate} {fs : FileSystem}
    {target : String × List Value} (allowed : ¬Refused gate fs target)
    (clear : ∀ path source, uriToPath target.1 = some path → readToString fs path = .ok source →
      (∀ item ∈ target.2, (byteEdit source item).start ≤ (byteEdit source item).stop) ∧
        (target.2.map (byteEdit source)).Pairwise Splice.Apart) :
    ∃ file, Planned gate fs target file ∧ ¬Overlaps file := by
  rw [Refused, not_or, not_exists] at allowed
  obtain ⟨named, granted⟩ := allowed
  obtain ⟨path, named⟩ := Option.ne_none_iff_exists'.mp named
  have passed := granted path
  rw [not_and, not_or, not_not, not_forall] at passed
  obtain ⟨granted, source, read⟩ := passed named
  rw [not_not] at read
  obtain ⟨upward, apart⟩ := clear path source named read
  obtain ⟨ranges, converted⟩ : ∃ ranges, List.Forall₂
      (fun item range => rangeEdit target.1 source item = .ok range) target.2 ranges :=
    List.exists_forall₂ fun item member => rangeEdit_ok_iff.mpr (upward item member)
  have planned : Planned gate fs target ⟨path, source, ranges⟩ := ⟨named, granted, read, converted⟩
  have ordered : ∀ range ∈ ranges, range.start ≤ range.stop := fun range member =>
    (planned.within range.edit (List.mem_map_of_mem member)).1
  refine ⟨_, planned, (not_overlaps_iff ordered).mpr ?_⟩
  rw [planned.byteEdits]
  exact apart

/-- An edit with targets is planned exactly where nothing is detected. -/
theorem plannedFiles_isOk_iff {gate : CapabilityGate} {fs : FileSystem} {edit : Value}
    (some_target : workspaceEditTargets edit ≠ []) :
    (∃ files, plannedFiles gate fs edit = .ok files) ↔ ¬Detected gate fs edit := by
  constructor
  · rintro ⟨files, planned⟩ ⟨target, member, detected⟩
    obtain ⟨-, held, apart⟩ := (plannedFiles_ok_iff gate fs edit files).mp planned
    obtain ⟨file, inside, plan⟩ := held.exists_right member
    obtain ⟨allowed, clear⟩ := plan.shows_nothing (apart file inside)
    rcases detected with refused | ⟨path, source, named, read, shown⟩
    · exact allowed refused
    · obtain ⟨upward, disjoint⟩ := clear path source named read
      rcases shown with ⟨item, held, inverted⟩ | overlap
      · exact Nat.not_lt.mpr (upward item held) inverted
      · exact overlap disjoint
  · intro nothing
    have each : ∀ target ∈ workspaceEditTargets edit,
        ∃ file, Planned gate fs target file ∧ ¬Overlaps file := by
      intro target member
      refine planned_of_shows_nothing ?_ ?_
      · exact fun refused => nothing ⟨target, member, .inl refused⟩
      · intro path source named read
        refine ⟨fun item held => ?_, ?_⟩
        · by_contra inverted
          exact nothing ⟨target, member, .inr ⟨path, source, named, read,
            .inl ⟨item, held, Nat.not_le.mp inverted⟩⟩⟩
        · by_contra overlap
          exact nothing ⟨target, member, .inr ⟨path, source, named, read, .inr overlap⟩⟩
    obtain ⟨files, planned⟩ := List.exists_forall₂ each
    refine ⟨files, (plannedFiles_ok_iff gate fs edit files).mpr ⟨some_target, ?_, ?_⟩⟩
    · exact planned.imp fun _ _ both => both.1
    · intro file member
      obtain ⟨target, -, both⟩ := planned.exists_left member
      exact both.2

/-- An invalid edit is rejected where one of its faults is detected. Over steady targets it is
rejected only there. -/
theorem rejectsInvalid_iff (gate : CapabilityGate) (fs : FileSystem) (edit : Value) :
    ((Invalid gate fs edit → Detected gate fs edit) → RejectsInvalid gate fs edit) ∧
      (Steady fs (targetPaths edit) →
        (RejectsInvalid gate fs edit ↔ (Invalid gate fs edit → Detected gate fs edit))) := by
  have enough : (Invalid gate fs edit → Detected gate fs edit) → RejectsInvalid gate fs edit := by
    intro detects invalid
    have some_target : workspaceEditTargets edit ≠ [] := by
      obtain ⟨target, member, -⟩ := invalid
      exact List.ne_nil_of_mem member
    cases planned : plannedFiles gate fs edit with
    | ok files =>
        exact absurd (detects invalid) ((plannedFiles_isOk_iff some_target).mp ⟨files, planned⟩)
    | error error =>
        refine ⟨error, ?_⟩
        rw [applyWorkspaceEdit, planned]
  refine ⟨enough, fun steady => ⟨fun rejects invalid => ?_, enough⟩⟩
  by_contra nothing
  have some_target : workspaceEditTargets edit ≠ [] := by
    obtain ⟨target, member, -⟩ := invalid
    exact List.ne_nil_of_mem member
  obtain ⟨files, planned⟩ := (plannedFiles_isOk_iff some_target).mpr nothing
  obtain ⟨after, ran, -⟩ := applyWorkspaceEdit_steady planned steady
  obtain ⟨error, stopped⟩ := rejects invalid
  rw [ran] at stopped
  cases (Prod.mk.inj stopped).1

/-- The source has two lines. -/
def twoLines : FileSystem :=
  (FileSystem.empty.put ["w"] .dir).put ["w", "a.rs"] (.file [97, 98, 10, 99, 100])

def backwards : Value :=
  .object [("range", .object [
    ("start", .object [("line", .number (.posInt 1))]),
    ("end", .object [("character", .number (.posInt 9))])])]

/-- A range starts in the second line and ends in the first one. -/
def backwardsEdit : Value :=
  .object [("changes", .object [("file:///w/a.rs", .array [backwards])])]

/-- The range from the second line to the first one is accepted. -/
theorem backwards_range_accepted : ¬∀ gate fs edit, RejectsInvalid gate fs edit := by
  intro all
  have targets : workspaceEditTargets backwardsEdit = [("file:///w/a.rs", [backwards])] := rfl
  have listed : ("file:///w/a.rs", [backwards]) ∈ workspaceEditTargets backwardsEdit := by
    rw [targets]
    exact List.mem_singleton_self _
  have inverted : Inverted backwards := .inl (by decide)
  obtain ⟨error, stopped⟩ := all sourceGate twoLines backwardsEdit
    ⟨_, listed, .inr (.inl ⟨backwards, List.mem_singleton_self _, inverted⟩)⟩
  have done : (applyWorkspaceEdit sourceGate twoLines backwardsEdit).1 = .ok (1, 1) := by
    decide +kernel
  rw [stopped] at done
  cases done

end Daemon.LspOps
