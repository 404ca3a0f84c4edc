import Mathlib.Data.List.Sort
import SynthHiresBridge.Data.Lines
import SynthHiresBridge.Data.Splice
import SynthHiresBridge.Data.Utf8
import SynthHiresBridge.Posix.Unlink
import SynthHiresBridge.Proof.Confinement

namespace Daemon

open Posix FileSystem

/-- The first line of an edit, which counts from one. -/
def HashlineEdit.first (edit : HashlineEdit) : Nat := max edit.startLine 1

/-- The last line of an edit, which is its first one at least. -/
def HashlineEdit.last (edit : HashlineEdit) : Nat :=
  max (edit.endLine.getD edit.startLine) edit.first

/-- An edit as a replacement of lines. -/
def HashlineEdit.splice (edit : HashlineEdit) : Splice.Edit String :=
  ⟨edit.first - 1, edit.last, edit.replacement⟩

def HashlineEdit.report (edit : HashlineEdit) : FsPatchApplied :=
  ⟨edit.first, edit.last, edit.replacement.length⟩

theorem HashlineEdit.first_pos (edit : HashlineEdit) : 1 ≤ edit.first := Nat.le_max_right _ _

theorem HashlineEdit.first_le_last (edit : HashlineEdit) : edit.first ≤ edit.last :=
  Nat.le_max_right _ _

/-- A range has a line at least. -/
theorem HashlineEdit.splice_filled (edit : HashlineEdit) :
    edit.splice.start < edit.splice.stop := by
  have one := edit.first_pos
  have ordered := edit.first_le_last
  show edit.first - 1 < edit.last
  omega

namespace FsOps

def PlannedEdit.splice (planned : PlannedEdit) : Splice.Edit String :=
  ⟨planned.start, planned.stop, planned.replacement⟩

def PlannedEdit.report (planned : PlannedEdit) : FsPatchApplied :=
  ⟨planned.start + 1, planned.stop, planned.replacement.length⟩

def plannedOf (edit : HashlineEdit) : PlannedEdit :=
  ⟨edit.first - 1, edit.last, edit.replacement⟩

/-- The lines of a file as a patch reads them. -/
def linesOf (bytes : List UInt8) : List String := Text.lines (Text.lossy bytes)

/-- The range of an edit lies inside the file, and its hashes fit the lines there. -/
def Anchored (host : Host) (lines : List String) (edit : HashlineEdit) : Prop :=
  edit.last ≤ lines.length ∧
    anchorMatches (((lines.take edit.last).drop (edit.first - 1)).map (shortHash host))
      edit.hashes = true

instance (host : Host) (lines : List String) (edit : HashlineEdit) :
    Decidable (Anchored host lines edit) := inferInstanceAs (Decidable (_ ∧ _))

/-- All edits replace their original ranges at once. -/
def described (original : List UInt8) (edits : List HashlineEdit) : List String :=
  Splice.together (edits.map HashlineEdit.splice) (linesOf original)

def endsWithNewline (bytes : List UInt8) : Bool := decide (bytes.getLast? = some 10)

theorem planEdit_eq (host : Host) (lines : List String) (edit : HashlineEdit) :
    ∃ beyond stale, planEdit host lines edit =
      if lines.length < edit.last then .error beyond
      else if anchorMatches (((lines.take edit.last).drop (edit.first - 1)).map (shortHash host))
        edit.hashes then .ok (plannedOf edit) else .error stale :=
  ⟨_, _, rfl⟩

/-- An edit is planned exactly where it is anchored. -/
theorem planEdit_ok_iff (host : Host) (lines : List String) (edit : HashlineEdit)
    (planned : PlannedEdit) : planEdit host lines edit = .ok planned ↔
      Anchored host lines edit ∧ planned = plannedOf edit := by
  obtain ⟨beyond, stale, same⟩ := planEdit_eq host lines edit
  rw [same, Anchored]
  split_ifs with outside fits
  · exact iff_of_false nofun (fun anchored => absurd anchored.1.1 (Nat.not_le.mpr outside))
  · rw [Except.ok.injEq, eq_comm]
    exact ⟨fun own => ⟨⟨Nat.not_lt.mp outside, fits⟩, own⟩, fun anchored => anchored.2⟩
  · exact iff_of_false nofun (fun anchored => fits anchored.1.2)

/-- The edits are planned exactly where each one is anchored. -/
theorem mapM_planEdit_ok_iff (host : Host) (lines : List String) (edits : List HashlineEdit)
    (planned : List PlannedEdit) : edits.mapM (planEdit host lines) = .ok planned ↔
      (∀ edit ∈ edits, Anchored host lines edit) ∧ planned = edits.map plannedOf := by
  induction edits generalizing planned with
  | nil =>
      rw [List.mapM_nil]
      refine ⟨fun same => ⟨by simp, (Except.ok.inj same).symm⟩, ?_⟩
      rintro ⟨-, rfl⟩
      rfl
  | cons edit edits ih =>
      rw [List.mapM_cons, List.forall_mem_cons]
      cases first : planEdit host lines edit with
      | error reason =>
          refine iff_of_false nofun ?_
          rintro ⟨⟨anchored, -⟩, -⟩
          rw [(planEdit_ok_iff host lines edit (plannedOf edit)).mpr ⟨anchored, rfl⟩] at first
          cases first
      | ok one =>
          obtain ⟨anchored, rfl⟩ := (planEdit_ok_iff host lines edit one).mp first
          cases rest : edits.mapM (planEdit host lines) with
          | error reason =>
              refine iff_of_false nofun ?_
              rintro ⟨⟨-, others⟩, -⟩
              rw [(ih (edits.map plannedOf)).mpr ⟨others, rfl⟩] at rest
              cases rest
          | ok more =>
              obtain ⟨others, rfl⟩ := (ih more).mp rest
              refine ⟨fun same => ⟨⟨anchored, others⟩, (Except.ok.inj same).symm⟩, ?_⟩
              rintro ⟨-, rfl⟩
              rfl

/-- No edit reaches into the one that was applied before it. -/
def Descends : Option Nat → List PlannedEdit → Prop
  | _, [] => True
  | last, planned :: rest =>
      (∀ before ∈ last, planned.stop ≤ before) ∧ Descends (some planned.start) rest

theorem applyPlanned_ok_iff (lines : List String) (applied : List FsPatchApplied)
    (last : Option Nat) (planned : List PlannedEdit) (result : List String × List FsPatchApplied) :
    applyPlanned lines applied last planned = .ok result ↔
      Descends last planned ∧ result =
        (planned.foldl (fun held edit => edit.splice.apply held) lines,
          (planned.map PlannedEdit.report).reverse ++ applied) := by
  induction planned generalizing lines applied last with
  | nil =>
      rw [applyPlanned, Except.ok.injEq, eq_comm]
      exact ⟨fun same => ⟨trivial, same⟩, fun held => held.2⟩
  | cons edit rest ih =>
      rw [applyPlanned]
      split_ifs with reaches
      · refine iff_of_false nofun ?_
        rintro ⟨⟨free, -⟩, -⟩
        cases last with
        | none => cases reaches
        | some before => exact absurd (free before rfl) (Nat.not_le.mpr (of_decide_eq_true reaches))
      · rw [ih, Descends]
        have free : ∀ before ∈ last, edit.stop ≤ before := by
          rintro before rfl
          by_contra below
          exact reaches (decide_eq_true (Nat.not_le.mp below))
        have spliced : lines.take edit.start ++ edit.replacement ++ lines.drop edit.stop =
            edit.splice.apply lines := rfl
        rw [and_iff_right free, List.foldl_cons, List.map_cons, List.reverse_cons, spliced,
          List.append_assoc, List.singleton_append]
        rfl

theorem descends_iff {last : Option Nat} {planned : List PlannedEdit}
    (ordered : ∀ edit ∈ planned, edit.start ≤ edit.stop) :
    Descends last planned ↔ (∀ before ∈ last, ∀ edit ∈ planned, edit.stop ≤ before) ∧
      planned.Pairwise fun upper lower => lower.stop ≤ upper.start := by
  induction planned generalizing last with
  | nil => simp [Descends]
  | cons edit rest ih =>
      obtain ⟨here, later⟩ := List.forall_mem_cons.mp ordered
      rw [Descends, ih later, List.pairwise_cons]
      constructor
      · rintro ⟨free, below, stacked⟩
        refine ⟨?_, below edit.start rfl, stacked⟩
        intro before held other member
        rcases List.mem_cons.mp member with rfl | after
        · exact free before held
        · exact (below edit.start rfl other after).trans (here.trans (free before held))
      · rintro ⟨free, below, stacked⟩
        refine ⟨fun before held => free before held edit (List.mem_cons_self ..), ?_, stacked⟩
        intro before held
        obtain rfl := Option.some.inj held
        exact below

/-- The planned edits from the first line to the last one. -/
def upward (edits : List HashlineEdit) : List PlannedEdit :=
  ((edits.map plannedOf).insertionSort fun first second => second.start ≤ first.start).reverse

theorem upward_perm (edits : List HashlineEdit) : (upward edits).Perm (edits.map plannedOf) :=
  (List.reverse_perm _).trans (List.perm_insertionSort _ _)

theorem upward_perm_splice (edits : List HashlineEdit) :
    ((upward edits).map PlannedEdit.splice).Perm (edits.map HashlineEdit.splice) := by
  have perm := (upward_perm edits).map PlannedEdit.splice
  rw [List.map_map] at perm
  exact perm

theorem mem_upward {edits : List HashlineEdit} {planned : PlannedEdit} :
    planned ∈ upward edits ↔ ∃ edit ∈ edits, plannedOf edit = planned := by
  rw [(upward_perm edits).mem_iff, List.mem_map]

theorem upward_filled {edits : List HashlineEdit} {planned : PlannedEdit}
    (member : planned ∈ upward edits) : planned.start < planned.stop := by
  obtain ⟨edit, -, rfl⟩ := mem_upward.mp member
  exact edit.splice_filled

instance : Std.Total fun first second : PlannedEdit => second.start ≤ first.start :=
  ⟨fun first second => Nat.le_total second.start first.start⟩

instance : IsTrans PlannedEdit fun first second => second.start ≤ first.start :=
  ⟨fun _ _ _ upper lower => Nat.le_trans lower upper⟩

theorem upward_sorted (edits : List HashlineEdit) :
    (upward edits).Pairwise fun lower upper => lower.start ≤ upper.start := by
  rw [upward, List.pairwise_reverse]
  exact List.pairwise_insertionSort _ _

/-- Sorted ranges with lines in them stand one behind the other exactly where no two overlap. -/
theorem upward_stacked_iff (edits : List HashlineEdit) :
    ((upward edits).Pairwise fun lower upper => lower.stop ≤ upper.start) ↔
      (edits.map HashlineEdit.splice).Pairwise Splice.Apart := by
  rw [← (upward_perm_splice edits).pairwise_iff fun apart => Splice.Apart.symm apart,
    List.pairwise_map]
  constructor
  · exact List.Pairwise.imp fun stacked => .inl stacked
  · intro apart
    refine ((upward_sorted edits).and apart).imp_of_mem ?_
    intro lower upper here there between
    have filled := upward_filled there
    rcases between.2 with stacked | crossed
    · exact stacked
    · have sorted := between.1
      have before : upper.stop ≤ lower.start := crossed
      omega

/-- The lines of an accepted patch. -/
theorem foldl_apply_eq_described {original : List UInt8} {edits : List HashlineEdit}
    (inside : ∀ edit ∈ edits, edit.last ≤ (linesOf original).length)
    (apart : (edits.map HashlineEdit.splice).Pairwise Splice.Apart) :
    (upward edits).reverse.foldl (fun held edit => edit.splice.apply held) (linesOf original) =
      described original edits := by
  have stacked : Splice.Stacked ((upward edits).map PlannedEdit.splice) :=
    List.pairwise_map.mpr ((upward_stacked_iff edits).mpr apart)
  have within : ∀ splice ∈ (upward edits).map PlannedEdit.splice,
      splice.Within (linesOf original).length := by
    intro splice member
    obtain ⟨planned, held, rfl⟩ := List.mem_map.mp member
    obtain ⟨edit, asked, rfl⟩ := mem_upward.mp held
    exact ⟨Nat.le_of_lt edit.splice_filled, inside edit asked⟩
  have filled : ∀ splice ∈ (upward edits).map PlannedEdit.splice, splice.start < splice.stop := by
    intro splice member
    obtain ⟨planned, held, rfl⟩ := List.mem_map.mp member
    exact upward_filled held
  rw [List.foldl_reverse, described, ← Splice.together_perm (upward_perm_splice edits) _ filled,
    ← Splice.foldr_apply stacked within, List.foldr_map]
  exact stacked.imp fun above => .inl above

theorem patchedContent_eq (host : Host) (original : List UInt8) (edits : List HashlineEdit) :
    patchedContent host original edits =
      (edits.mapM (planEdit host (linesOf original))).bind fun planned =>
        (applyPlanned (linesOf original) [] none
          (planned.insertionSort fun first second => second.start ≤ first.start)).map fun patched =>
            (Text.joinLines (endsWithNewline original) patched.1, patched.2) := by
  simp only [patchedContent, Text.joinLines, endsWithNewline, decide_eq_true_eq]
  rfl

/-- The edits of a patch are applied exactly where no two overlap. -/
theorem applyPlanned_upward_ok_iff {original : List UInt8} {edits : List HashlineEdit}
    (inside : ∀ edit ∈ edits, edit.last ≤ (linesOf original).length)
    (result : List String × List FsPatchApplied) :
    applyPlanned (linesOf original) [] none ((edits.map plannedOf).insertionSort
        fun first second => second.start ≤ first.start) = .ok result ↔
      (edits.map HashlineEdit.splice).Pairwise Splice.Apart ∧
        result = (described original edits, (upward edits).map PlannedEdit.report) := by
  have sorted : (edits.map plannedOf).insertionSort
      (fun first second => second.start ≤ first.start) = (upward edits).reverse := by
    rw [upward, List.reverse_reverse]
  have ordered : ∀ plan ∈ (upward edits).reverse, plan.start ≤ plan.stop := by
    intro plan member
    exact Nat.le_of_lt (upward_filled (List.mem_reverse.mp member))
  have fits : Descends none (upward edits).reverse ↔
      (edits.map HashlineEdit.splice).Pairwise Splice.Apart := by
    rw [descends_iff ordered, ← upward_stacked_iff, List.pairwise_reverse]
    exact and_iff_right nofun
  rw [sorted, applyPlanned_ok_iff, fits]
  apply and_congr_right
  intro apart
  rw [foldl_apply_eq_described inside apart, List.map_reverse, List.reverse_reverse,
    List.append_nil]

/-- A patch has a new content exactly where every edit is anchored and no two overlap. -/
theorem patchedContent_ok_iff (host : Host) (original : List UInt8) (edits : List HashlineEdit)
    (result : String × List FsPatchApplied) :
    patchedContent host original edits = .ok result ↔
      (∀ edit ∈ edits, Anchored host (linesOf original) edit) ∧
        (edits.map HashlineEdit.splice).Pairwise Splice.Apart ∧
        result = (Text.joinLines (endsWithNewline original) (described original edits),
          (upward edits).map PlannedEdit.report) := by
  rw [patchedContent_eq]
  cases planned : edits.mapM (planEdit host (linesOf original)) with
  | error reason =>
      refine iff_of_false nofun ?_
      rintro ⟨anchored, -, -⟩
      rw [(mapM_planEdit_ok_iff host _ edits (edits.map plannedOf)).mpr ⟨anchored, rfl⟩] at planned
      cases planned
  | ok plans =>
      obtain ⟨anchored, rfl⟩ := (mapM_planEdit_ok_iff host _ edits plans).mp planned
      have applied := applyPlanned_upward_ok_iff fun edit member => (anchored edit member).1
      rw [and_iff_right anchored, Except.bind]
      cases done : applyPlanned (linesOf original) [] none ((edits.map plannedOf).insertionSort
          fun first second => second.start ≤ first.start) with
      | error reason =>
          refine iff_of_false nofun ?_
          rintro ⟨apart, -⟩
          rw [(applied _).mpr ⟨apart, rfl⟩] at done
          cases done
      | ok patched =>
          obtain ⟨apart, rfl⟩ := (applied patched).mp done
          rw [and_iff_right apart, Except.map, Except.ok.injEq, eq_comm]

/-- The planned edits do not depend on the order of the request. -/
theorem upward_eq_of_perm {edits others : List HashlineEdit} (perm : edits.Perm others)
    (apart : (edits.map HashlineEdit.splice).Pairwise Splice.Apart) :
    upward edits = upward others := by
  have same := ((upward_perm edits).trans (perm.map plannedOf)).trans (upward_perm others).symm
  have here := (upward_stacked_iff edits).mpr apart
  have there := (upward_stacked_iff others).mpr
    (((perm.map HashlineEdit.splice).pairwise_iff fun apart => Splice.Apart.symm apart).mp apart)
  refine List.Perm.eq_of_pairwise ?_ here there same
  intro lower upper inside member before after
  have first := upward_filled inside
  have second := upward_filled member
  omega

theorem described_eq_of_perm (original : List UInt8) {edits others : List HashlineEdit}
    (perm : edits.Perm others) (apart : (edits.map HashlineEdit.splice).Pairwise Splice.Apart) :
    described original edits = described original others := by
  apply Splice.together_perm (perm.map HashlineEdit.splice) apart
  intro splice member
  obtain ⟨edit, -, rfl⟩ := List.mem_map.mp member
  exact edit.splice_filled

/-- Edits in another order have the same content or none. -/
theorem patchedContent_perm (host : Host) (original : List UInt8) {edits others : List HashlineEdit}
    (perm : edits.Perm others) (result : String × List FsPatchApplied) :
    patchedContent host original edits = .ok result ↔
      patchedContent host original others = .ok result := by
  have pairs := (perm.map HashlineEdit.splice).pairwise_iff
    (R := Splice.Apart) fun apart => Splice.Apart.symm apart
  rw [patchedContent_ok_iff, patchedContent_ok_iff, pairs]
  have anchors : (∀ edit ∈ edits, Anchored host (linesOf original) edit) ↔
      ∀ edit ∈ others, Anchored host (linesOf original) edit := by
    simp only [perm.mem_iff]
  rw [anchors]
  apply and_congr_right
  intro _
  apply and_congr_right
  intro apart
  rw [upward_eq_of_perm perm (pairs.mpr apart),
    described_eq_of_perm original perm (pairs.mpr apart)]

/-- What a patch checks before it writes. -/
def planPatch (host : Host) (gate : CapabilityGate) (fs : FileSystem) (req : FsPatchRequest) :
    Except DaemonError (List UInt8 × String × List FsPatchApplied) :=
  (gateForPath gate fs "desktop.fs.write" req.path).bind fun _ =>
    if req.edits.isEmpty then .error (.protocol "fs.patch: no edits")
    else match fs.read (.ofText req.path) with
      | .error errno => .error (.ofErrno errno)
      | .ok original =>
          (patchedContent host original req.edits).map fun patched => (original, patched)

theorem patch_eq (host : Host) (moment : Moment) (gate : CapabilityGate) (fs : FileSystem)
    (req : FsPatchRequest) : patch host moment gate fs req =
      match planPatch host gate fs req with
      | .error error => (.error error, fs)
      | .ok planned =>
          match writeViaUniqueTmp moment fs req.path (Text.encode planned.2.1) with
          | (.error error, written) => (.error error, written)
          | (.ok _, written) => match written.read (.ofText req.path) with
            | .error errno => (.error (.ofErrno errno), written)
            | .ok back =>
                (.ok ⟨back.length, back == Text.encode planned.2.1, planned.2.2⟩, written) := by
  unfold patch planPatch
  cases gateForPath gate fs "desktop.fs.write" req.path with
  | error error => rfl
  | ok _ =>
      simp only [Except.bind]
      split
      · rfl
      · cases fs.read (.ofText req.path) with
        | error errno => rfl
        | ok original =>
            simp only
            cases patchedContent host original req.edits with
            | error error => rfl
            | ok patched => rfl

/-- An atomic write that fails keeps every entry. -/
theorem writeViaUniqueTmp_error (moment : Moment) (fs after : FileSystem) (path : String)
    (bytes : List UInt8) (reason : DaemonError)
    (done : writeViaUniqueTmp moment fs path bytes = (.error reason, after)) :
    after.Extends fs ∧ after.cwd = fs.cwd := by
  unfold writeViaUniqueTmp at done
  cases made : fs.createNew ((PathBuf.ofText path).withExtension
      ("synthhires-tmp-" ++ moment.uuid)) bytes with
  | error _ =>
      simp only [made, Prod.mk.injEq] at done
      obtain rfl := done.2
      exact ⟨fun _ _ present => present, rfl⟩
  | ok created =>
      obtain ⟨sibling, -, missing, fits, same⟩ := createNew_ok fs created _ bytes made
      obtain ⟨-, -, -, -, seen⟩ := created_stands fs created _ bytes made
      simp only [made, seen] at done
      cases moved : created.rename ((PathBuf.ofText path).withExtension
          ("synthhires-tmp-" ++ moment.uuid)) (.ofText path) with
      | error _ =>
          simp only [moved, Prod.mk.injEq] at done
          rw [← done.2, same]
          exact ⟨put_extends fs sibling _ missing fits, put_cwd fs sibling _⟩
      | ok renamed => simp [moved] at done

/-- `lines[start..stop]` panics when the range is not in order or not inside. -/
def slice? (lines : List String) (start stop : Nat) : Option (List String) :=
  if start ≤ stop ∧ stop ≤ lines.length then some ((lines.take stop).drop start) else none

/-- `Vec::splice` panics at the same ranges. -/
def splice? (lines : List String) (edit : PlannedEdit) : Option (List String) :=
  if edit.start ≤ edit.stop ∧ edit.stop ≤ lines.length then some (edit.splice.apply lines) else none

/-- The plan of an edit slices the lines inside the file only. -/
def planEdit? (host : Host) (lines : List String) (edit : HashlineEdit) :
    Option (Except DaemonError PlannedEdit) :=
  if lines.length < edit.last then some (planEdit host lines edit)
  else (slice? lines (edit.first - 1) edit.last).map fun _ => planEdit host lines edit

/-- The loop stops at the first edit that is refused. -/
def planEdits? (host : Host) (lines : List String) :
    List HashlineEdit → Option (Except DaemonError (List PlannedEdit))
  | [] => some (.ok [])
  | edit :: rest => (planEdit? host lines edit).bind fun
      | .error error => some (.error error)
      | .ok planned => (planEdits? host lines rest).map fun more => more.map (planned :: ·)

/-- The loop splices each range, and a range outside the lines of that moment panics. -/
def applyPlanned? (lines : List String) (applied : List FsPatchApplied) (last : Option Nat) :
    List PlannedEdit → Option (Except DaemonError (List String × List FsPatchApplied))
  | [] => some (.ok (lines, applied))
  | edit :: rest =>
      if last.any (· < edit.stop) then some (.error (.protocol "fs.patch: overlapping edit ranges"))
      else (splice? lines edit).bind fun spliced =>
        applyPlanned? spliced (edit.report :: applied) (some edit.start) rest

/-- The new content of a patched file, where nothing is left of a call that panics. -/
def patchedContent? (host : Host) (original : List UInt8) (edits : List HashlineEdit) :
    Option (Except DaemonError (String × List FsPatchApplied)) :=
  (planEdits? host (linesOf original) edits).bind fun
    | .error error => some (.error error)
    | .ok planned =>
        (applyPlanned? (linesOf original) [] none
          (planned.insertionSort fun first second => second.start ≤ first.start)).map fun done =>
            done.map fun patched =>
              (Text.joinLines (endsWithNewline original) patched.1, patched.2)

theorem planEdit?_eq (host : Host) (lines : List String) (edit : HashlineEdit) :
    planEdit? host lines edit = some (planEdit host lines edit) := by
  rw [planEdit?, slice?]
  split_ifs with beyond inside
  · rfl
  · rfl
  · refine absurd ⟨?_, Nat.not_lt.mp beyond⟩ inside
    exact Nat.le_of_lt edit.splice_filled

theorem planEdits?_eq (host : Host) (lines : List String) (edits : List HashlineEdit) :
    planEdits? host lines edits = some (edits.mapM (planEdit host lines)) := by
  induction edits with
  | nil => rfl
  | cons edit rest ih =>
      rw [planEdits?, planEdit?_eq, List.mapM_cons, ih]
      cases planEdit host lines edit with
      | error error => rfl
      | ok planned =>
          cases rest.mapM (planEdit host lines) with
          | error error => rfl
          | ok more => rfl

/-- A splice keeps the lines before its range. -/
theorem start_le_length_apply {lines : List String} {edit : PlannedEdit}
    (ordered : edit.start ≤ edit.stop) (inside : edit.stop ≤ lines.length) :
    edit.start ≤ (edit.splice.apply lines).length := by
  rw [Splice.Edit.apply, List.length_append, List.length_append, List.length_take]
  have start : edit.splice.start = edit.start := rfl
  omega

/-- Every splice stays inside the lines of its moment. -/
theorem applyPlanned?_eq {lines : List String} {applied : List FsPatchApplied} {last : Option Nat}
    {planned : List PlannedEdit} (ordered : ∀ edit ∈ planned, edit.start ≤ edit.stop)
    (inside : match last with
      | none => ∀ edit ∈ planned, edit.stop ≤ lines.length
      | some before => before ≤ lines.length) :
    applyPlanned? lines applied last planned = some (applyPlanned lines applied last planned) := by
  induction planned generalizing lines applied last with
  | nil => rfl
  | cons edit rest ih =>
      obtain ⟨here, later⟩ := List.forall_mem_cons.mp ordered
      rw [applyPlanned?, applyPlanned]
      split_ifs with reaches
      · rfl
      · have bounded : edit.stop ≤ lines.length := by
          cases last with
          | none => exact inside edit (List.mem_cons_self ..)
          | some before =>
              have free : edit.stop ≤ before := by
                by_contra below
                exact reaches (decide_eq_true (Nat.not_le.mp below))
              exact free.trans inside
        rw [splice?, if_pos ⟨here, bounded⟩]
        exact ih later (start_le_length_apply here bounded)

/-- No patch panics. -/
theorem patchedContent?_eq (host : Host) (original : List UInt8) (edits : List HashlineEdit) :
    patchedContent? host original edits = some (patchedContent host original edits) := by
  rw [patchedContent?, planEdits?_eq, patchedContent_eq]
  cases planned : edits.mapM (planEdit host (linesOf original)) with
  | error error => rfl
  | ok plans =>
      obtain ⟨anchored, rfl⟩ := (mapM_planEdit_ok_iff host _ edits plans).mp planned
      have members : ∀ plan ∈ (edits.map plannedOf).insertionSort
          (fun first second => second.start ≤ first.start), ∃ edit ∈ edits, plannedOf edit = plan :=
        fun plan member => List.mem_map.mp ((List.perm_insertionSort _ _).mem_iff.mp member)
      simp only [Option.bind_some]
      rw [applyPlanned?_eq]
      · rfl
      · intro plan member
        obtain ⟨edit, -, rfl⟩ := members plan member
        exact Nat.le_of_lt edit.splice_filled
      · intro plan member
        obtain ⟨edit, asked, rfl⟩ := members plan member
        exact (anchored edit asked).1

/-- What a patch promises: an error leaves every entry as it was, and a success gives the original
lines with every range replaced at once; the order of the edits does not matter, and no call
panics. -/
structure AppliesTogether (host : Host) (moment : Moment) (gate : CapabilityGate)
    (fs : FileSystem) (req : FsPatchRequest) : Prop where
  refused : ∀ error, (patch host moment gate fs req).1 = .error error →
    (patch host moment gate fs req).2.Extends fs ∧
      ∀ original, fs.read (.ofText req.path) = .ok original →
        (patch host moment gate fs req).2.read (.ofText req.path) = .ok original
  accepted : ∀ result, (patch host moment gate fs req).1 = .ok result →
    ∃ original written, fs.read (.ofText req.path) = .ok original ∧
      (patch host moment gate fs req).2.read (.ofText req.path) = .ok written ∧
      (∀ edit ∈ req.edits, edit.last ≤ (linesOf original).length) ∧
      (req.edits.map HashlineEdit.splice).Pairwise Splice.Apart ∧
      linesOf written = described original req.edits ∧
      result.applied.Perm (req.edits.map HashlineEdit.report) ∧
      result.applied.Pairwise fun lower upper => lower.endLine < upper.startLine
  unordered : ∀ edits, edits.Perm req.edits →
    (patch host moment gate fs { req with edits := edits }).1.toOption =
        (patch host moment gate fs req).1.toOption ∧
      (patch host moment gate fs { req with edits := edits }).2 =
        (patch host moment gate fs req).2
  calm : ∀ original, fs.read (.ofText req.path) = .ok original →
    (patchedContent? host original req.edits).isSome

/-- Nothing stops a patch of these original bytes. -/
structure Acceptable (host : Host) (moment : Moment) (gate : CapabilityGate) (fs : FileSystem)
    (req : FsPatchRequest) (original : List UInt8) : Prop where
  granted : gateForPath gate fs "desktop.fs.write" req.path = .ok ()
  asked : req.edits ≠ []
  reads : fs.read (.ofText req.path) = .ok original
  anchored : ∀ edit ∈ req.edits, Anchored host (linesOf original) edit
  apart : (req.edits.map HashlineEdit.splice).Pairwise Splice.Apart
  writes : ∃ written, writeViaUniqueTmp moment fs req.path (Text.encode
    (Text.joinLines (endsWithNewline original) (described original req.edits))) = (.ok (), written)

theorem planPatch_ok_iff (host : Host) (gate : CapabilityGate) (fs : FileSystem)
    (req : FsPatchRequest) (planned : List UInt8 × String × List FsPatchApplied) :
    planPatch host gate fs req = .ok planned ↔
      gateForPath gate fs "desktop.fs.write" req.path = .ok () ∧ req.edits ≠ [] ∧
        fs.read (.ofText req.path) = .ok planned.1 ∧
        patchedContent host planned.1 req.edits = .ok planned.2 := by
  obtain ⟨original, result⟩ := planned
  rw [planPatch]
  cases gateForPath gate fs "desktop.fs.write" req.path with
  | error error => exact iff_of_false nofun (fun held => nomatch held.1)
  | ok _ =>
      rw [Except.bind, and_iff_right rfl]
      cases asked : req.edits with
      | nil => exact iff_of_false nofun (fun held => held.1 rfl)
      | cons edit rest =>
          rw [and_iff_right (List.cons_ne_nil edit rest)]
          simp only [List.isEmpty_cons, Bool.false_eq_true, if_false]
          cases fs.read (.ofText req.path) with
          | error errno =>
              refine iff_of_false nofun ?_
              rintro ⟨same, -⟩
              cases same
          | ok bytes =>
              simp only [Except.ok.injEq]
              constructor
              · intro same
                cases done : patchedContent host bytes (edit :: rest) with
                | error error =>
                    rw [done] at same
                    cases same
                | ok patched =>
                    rw [done] at same
                    cases same
                    exact ⟨rfl, done⟩
              · rintro ⟨rfl, done⟩
                rw [done]
                rfl

/-- A patch without anything to stop it writes what the edits describe. -/
theorem Acceptable.plan {host : Host} {moment : Moment} {gate : CapabilityGate} {fs : FileSystem}
    {req : FsPatchRequest} {original : List UInt8}
    (acceptable : Acceptable host moment gate fs req original) :
    planPatch host gate fs req = .ok (original,
      Text.joinLines (endsWithNewline original) (described original req.edits),
      (upward req.edits).map PlannedEdit.report) := by
  rw [planPatch_ok_iff, patchedContent_ok_iff]
  exact ⟨acceptable.granted, acceptable.asked, acceptable.reads, acceptable.anchored,
    acceptable.apart, rfl⟩

theorem writeViaUniqueTmp_read {moment : Moment} {fs written : FileSystem} {path : String}
    {original bytes : List UInt8} (reads : fs.read (.ofText path) = .ok original)
    (wrote : writeViaUniqueTmp moment fs path bytes = (.ok (), written)) :
    written.read (.ofText path) = .ok bytes := by
  obtain ⟨entry, replaced⟩ := writeViaUniqueTmp_ok moment fs written path bytes wrote
  exact read_replaced reads replaced

/-- A patch succeeds exactly where nothing stops it, and then its file has the joined lines. -/
theorem patch_ok_iff {host : Host} {moment : Moment} {gate : CapabilityGate} {fs : FileSystem}
    {req : FsPatchRequest} {result : FsPatchResult} :
    (patch host moment gate fs req).1 = .ok result ↔
      ∃ original, Acceptable host moment gate fs req original ∧
        result = ⟨(Text.encode (Text.joinLines (endsWithNewline original)
          (described original req.edits))).length, true,
          (upward req.edits).map PlannedEdit.report⟩ := by
  rw [patch_eq]
  constructor
  · intro done
    cases planned : planPatch host gate fs req with
    | error error =>
        rw [planned] at done
        cases done
    | ok plan =>
        obtain ⟨granted, asked, reads, content⟩ := (planPatch_ok_iff host gate fs req plan).mp planned
        obtain ⟨anchored, apart, same⟩ := (patchedContent_ok_iff host _ _ _).mp content
        rw [planned] at done
        simp only [same] at done
        cases wrote : writeViaUniqueTmp moment fs req.path (Text.encode
            (Text.joinLines (endsWithNewline plan.1) (described plan.1 req.edits))) with
        | mk outcome written =>
            rw [wrote] at done
            cases outcome with
            | error error => cases done
            | ok _ =>
                refine ⟨plan.1, ⟨granted, asked, reads, anchored, apart, written, wrote⟩, ?_⟩
                simp only [writeViaUniqueTmp_read reads wrote, beq_self_eq_true] at done
                exact (Except.ok.inj done).symm
  · rintro ⟨original, acceptable, rfl⟩
    obtain ⟨written, wrote⟩ := acceptable.writes
    rw [acceptable.plan]
    simp only [wrote, writeViaUniqueTmp_read acceptable.reads wrote, beq_self_eq_true]

/-- The file of a patch that succeeds. -/
theorem Acceptable.written {host : Host} {moment : Moment} {gate : CapabilityGate}
    {fs : FileSystem} {req : FsPatchRequest} {original : List UInt8}
    (acceptable : Acceptable host moment gate fs req original) :
    (patch host moment gate fs req).2.read (.ofText req.path) = .ok (Text.encode
      (Text.joinLines (endsWithNewline original) (described original req.edits))) := by
  obtain ⟨written, wrote⟩ := acceptable.writes
  rw [patch_eq, acceptable.plan]
  simp only [wrote, writeViaUniqueTmp_read acceptable.reads wrote]

/-- A patch that fails keeps every entry. -/
theorem patch_error {host : Host} {moment : Moment} {gate : CapabilityGate} {fs : FileSystem}
    {req : FsPatchRequest} {error : DaemonError}
    (failed : (patch host moment gate fs req).1 = .error error) :
    (patch host moment gate fs req).2.Extends fs ∧
      (patch host moment gate fs req).2.cwd = fs.cwd := by
  rw [patch_eq] at failed ⊢
  cases planned : planPatch host gate fs req with
  | error _ => exact ⟨fun _ _ present => present, rfl⟩
  | ok plan =>
      obtain ⟨-, -, reads, -⟩ := (planPatch_ok_iff host gate fs req plan).mp planned
      simp only [planned] at failed ⊢
      cases wrote : writeViaUniqueTmp moment fs req.path (Text.encode plan.2.1) with
      | mk outcome written =>
          cases outcome with
          | error reason => exact writeViaUniqueTmp_error moment fs written _ _ reason wrote
          | ok _ =>
              simp only [wrote, writeViaUniqueTmp_read reads wrote] at failed
              cases failed

/-- Every edit is reported with its original range. -/
theorem reports_perm (edits : List HashlineEdit) :
    ((upward edits).map PlannedEdit.report).Perm (edits.map HashlineEdit.report) := by
  have perm := (upward_perm edits).map PlannedEdit.report
  have same : (edits.map plannedOf).map PlannedEdit.report = edits.map HashlineEdit.report := by
    rw [List.map_map]
    apply List.map_congr_left
    intro edit _
    have one : edit.first - 1 + 1 = edit.first := Nat.sub_add_cancel edit.first_pos
    exact congrArg (FsPatchApplied.mk · edit.last edit.replacement.length) one
  rwa [same] at perm

/-- The reports ascend. -/
theorem reports_ascend {edits : List HashlineEdit}
    (apart : (edits.map HashlineEdit.splice).Pairwise Splice.Apart) :
    ((upward edits).map PlannedEdit.report).Pairwise
      fun lower upper => lower.endLine < upper.startLine := by
  rw [List.pairwise_map]
  exact ((upward_stacked_iff edits).mpr apart).imp fun stacked => Nat.lt_succ_of_le stacked

/-- The order of the edits decides at most which error comes back. -/
theorem patch_perm (host : Host) (moment : Moment) (gate : CapabilityGate) (fs : FileSystem)
    (req : FsPatchRequest) {edits : List HashlineEdit} (perm : edits.Perm req.edits) :
    (patch host moment gate fs { req with edits := edits }).1.toOption =
        (patch host moment gate fs req).1.toOption ∧
      (patch host moment gate fs { req with edits := edits }).2 =
        (patch host moment gate fs req).2 := by
  have plans : ∀ plan, planPatch host gate fs { req with edits := edits } = .ok plan ↔
      planPatch host gate fs req = .ok plan := by
    intro plan
    rw [planPatch_ok_iff, planPatch_ok_iff, patchedContent_perm host plan.1 perm]
    have empty : edits = [] ↔ req.edits = [] :=
      ⟨fun none => List.nil_perm.mp (none ▸ perm), fun none => List.perm_nil.mp (none ▸ perm)⟩
    rw [Ne, Ne, empty]
  rw [patch_eq, patch_eq]
  cases planned : planPatch host gate fs req with
  | ok plan =>
      rw [(plans plan).mpr planned]
      exact ⟨rfl, rfl⟩
  | error error =>
      cases other : planPatch host gate fs { req with edits := edits } with
      | ok plan =>
          rw [(plans plan).mp other] at planned
          cases planned
      | error _ => exact ⟨rfl, rfl⟩

/-- A patch keeps its promise exactly where the lines that it describes survive being joined. -/
theorem appliesTogether_iff (host : Host) (moment : Moment) (gate : CapabilityGate)
    (fs : FileSystem) (req : FsPatchRequest) :
    AppliesTogether host moment gate fs req ↔
      ∀ original, Acceptable host moment gate fs req original →
        Text.Survives (endsWithNewline original) (described original req.edits) := by
  constructor
  · intro applies original acceptable
    obtain ⟨before, written, reads, wrote, -, -, same, -, -⟩ :=
      applies.accepted _ (patch_ok_iff.mpr ⟨original, acceptable, rfl⟩)
    rw [acceptable.reads] at reads
    obtain rfl := Except.ok.inj reads
    rw [acceptable.written] at wrote
    obtain rfl := Except.ok.inj wrote
    rw [linesOf, Text.lossy_encode, Text.lines_joinLines_iff] at same
    exact same
  · intro survive
    refine ⟨?_, ?_, fun edits perm => patch_perm host moment gate fs req perm, ?_⟩
    · intro error failed
      obtain ⟨more, cwd⟩ := patch_error failed
      exact ⟨more, fun original reads => read_mono more cwd reads⟩
    · intro result done
      obtain ⟨original, acceptable, rfl⟩ := patch_ok_iff.mp done
      refine ⟨original, _, acceptable.reads, acceptable.written,
        fun edit member => (acceptable.anchored edit member).1, acceptable.apart, ?_,
        reports_perm req.edits, reports_ascend acceptable.apart⟩
      rw [linesOf, Text.lossy_encode, Text.lines_joinLines_iff]
      exact survive original acceptable
    · intro original _
      rw [patchedContent?_eq]
      rfl

/-- A workspace has a file of one line. -/
def oneLine : FileSystem :=
  (FileSystem.empty.put ["w"] .dir).put ["w", "a"] (.file (Text.encode "a\n"))

/-- The edit deletes the only line. -/
def deleteAll : FsPatchRequest := ⟨"/w/a", [⟨1, none, none, []⟩]⟩

/-- A file whose lines are all deleted keeps an empty line. -/
theorem deleteAll_leaves_line :
    ¬∀ (host : Host) (moment : Moment) (gate : CapabilityGate) (fs : FileSystem)
      (req : FsPatchRequest), AppliesTogether host moment gate fs req := by
  intro all
  have applies := all .quiet (.quiet 0) FileOp.workspaceGate oneLine deleteAll
  have done : (patch .quiet (.quiet 0) FileOp.workspaceGate oneLine deleteAll).1 =
      .ok ⟨1, true, [⟨1, 1, 0⟩]⟩ := by decide
  obtain ⟨original, written, reads, wrote, -, -, same, -⟩ := applies.accepted _ done
  have before : oneLine.read (.ofText deleteAll.path) = .ok (Text.encode "a\n") := by
    decide
  have after : (patch .quiet (.quiet 0) FileOp.workspaceGate oneLine deleteAll).2.read
      (.ofText deleteAll.path) = .ok (Text.encode "\n") := by decide
  rw [before] at reads
  rw [after] at wrote
  rw [← Except.ok.inj reads, ← Except.ok.inj wrote] at same
  exact absurd same (by decide)

end FsOps

end Daemon
