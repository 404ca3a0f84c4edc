import SynthHiresBridge.Posix.Mutation

namespace Posix.FileSystem

theorem put_extends (fs : FileSystem) (location : Location) (node : Node)
    (missing : fs.lookup location = none) (fits : fs.Puttable location) :
    (fs.put location node).Extends fs := by
  intro place other present
  rw [lookup_put fs location node fits]
  split
  · rename_i same
    subst same
    simp [missing] at present
  · exact present

theorem container_mono {later earlier : FileSystem} (more : later.Covers earlier)
    (cwd : later.cwd = earlier.cwd) (path : PathBuf) (above : Location)
    (held : earlier.container path = .ok above) : later.container path = .ok above := by
  unfold container at held ⊢
  cases walked : earlier.walk false maxSymlinks earlier.cwd path.components.dropLast with
  | error _ => rw [walked] at held; cases held
  | ok reached =>
      rw [walked] at held
      rw [cwd, walk_mono more _ _ _ reached walked]
      simp only [Except.bind] at held ⊢
      cases entered : earlier.enter reached.1 with
      | error _ => rw [entered] at held; cases held
      | ok _ =>
          rw [entered] at held
          rw [enter_mono more reached.1 entered]
          exact held

theorem canonicalize_mono {later earlier : FileSystem} (more : later.Covers earlier)
    (cwd : later.cwd = earlier.cwd) (path : PathBuf) (real : Location)
    (resolved : earlier.canonicalize path = .ok real) : later.canonicalize path = .ok real := by
  have named := components_ne_nil_of_canonicalize earlier path real resolved
  rw [canonicalize_ne_nil _ path named] at resolved ⊢
  cases walked : earlier.walk false maxSymlinks earlier.cwd path.osComponents with
  | error _ => rw [walked] at resolved; cases resolved
  | ok reached =>
      rw [walked] at resolved
      rw [cwd, walk_mono more _ _ _ reached walked]
      exact resolved

/-- An entry that can be reached stays where it is when the file system is covered. -/
theorem entryOf_mono {later earlier : FileSystem} (more : later.Covers earlier)
    (cwd : later.cwd = earlier.cwd) (path : PathBuf) (entry : Location)
    (stands : earlier.entryOf path = .ok entry) : later.entryOf path = .ok entry := by
  by_cases followed : path.ending ≠ .plain ∨ path.fileName = none
  · rw [entryOf_followed earlier path followed] at stands
    rw [entryOf_followed later path followed]
    exact canonicalize_mono more cwd path entry stands
  · rw [not_or, not_not] at followed
    obtain ⟨name, named⟩ := Option.ne_none_iff_exists'.mp followed.2
    rw [entryOf_named _ path name followed.1 named] at stands ⊢
    cases held : earlier.container path with
    | error _ => rw [held] at stands; cases stands
    | ok above =>
        rw [held] at stands
        rw [container_mono more cwd path above held]
        exact stands

/-- A named path's container is the real place of its parent. -/
theorem canonicalize_parent (fs : FileSystem) (path : PathBuf) (above : Location)
    (held : fs.container path = .ok above) (deep : path.components.dropLast ≠ []) :
    fs.canonicalize path.above = .ok above := by
  rw [← PathBuf.above_components] at deep
  rw [canonicalize_ne_nil fs path.above deep, PathBuf.osComponents_plain _ path.above_ending,
    PathBuf.above_components]
  unfold container at held
  cases walked : fs.walk false maxSymlinks fs.cwd path.components.dropLast with
  | error _ => rw [walked] at held; cases held
  | ok reached =>
      rw [walked] at held
      simp only [Except.bind] at held
      cases entered : fs.enter reached.1 with
      | error _ => rw [entered] at held; cases held
      | ok _ =>
          rw [entered] at held
          simpa [Except.map] using held

/-- A parent that resolves to a directory is the container. -/
theorem container_of_parent (fs : FileSystem) (path : PathBuf) (above : Location)
    (resolved : fs.canonicalize path.above = .ok above)
    (standing : fs.lookup above = some .dir) : fs.container path = .ok above := by
  have deep := components_ne_nil_of_canonicalize fs _ above resolved
  rw [canonicalize_ne_nil fs _ deep, PathBuf.osComponents_plain _ path.above_ending,
    PathBuf.above_components] at resolved
  unfold container
  cases walked : fs.walk false maxSymlinks fs.cwd path.components.dropLast with
  | error _ => rw [walked] at resolved; cases resolved
  | ok reached =>
      rw [walked] at resolved
      obtain rfl : reached.1 = above := by simpa [Except.map] using resolved
      simp only [Except.bind]
      rw [(enter_ok_iff fs reached.1).mpr standing]
      rfl

/-- A path whose entry is missing does not resolve. -/
theorem canonicalize_error_of_missing (fs : FileSystem) (path : PathBuf) (entry : Location)
    (stands : fs.entryOf path = .ok entry) (missing : fs.lookup entry = none) :
    ∃ reason, fs.canonicalize path = .error reason := by
  cases resolved : fs.canonicalize path with
  | error reason => exact ⟨reason, rfl⟩
  | ok real =>
      exfalso
      by_cases followed : path.ending ≠ .plain ∨ path.fileName = none
      · rw [entryOf_followed fs path followed, resolved] at stands
        cases stands
        have present := canonicalize_exists fs path entry resolved
        simp [missing] at present
      · rw [not_or, not_not] at followed
        obtain ⟨name, named⟩ := Option.ne_none_iff_exists'.mp followed.2
        obtain ⟨other, node, stands', present, _⟩ :=
          canonicalize_entry fs path name real followed.1 named resolved
        rw [stands] at stands'
        cases stands'
        simp [missing] at present

/-- A created directory adds exactly the missing directories above its place. -/
structure MadeDir (before after : FileSystem) (path : PathBuf) (place : Location) : Prop where
  resolved : after.canonicalize path = .ok place
  standing : after.lookup place = some .dir
  added : ∀ location, after.lookup location =
    if before.lookup location = none ∧ location <+: place then some .dir
    else before.lookup location
  cwd : after.cwd = before.cwd
  below : ∀ real, before.realAncestor path = some real → real <+: place

theorem MadeDir.extends {before after : FileSystem} {path : PathBuf} {place : Location}
    (made : MadeDir before after path place) : after.Extends before := by
  intro location node present
  rw [made.added, if_neg (by simp [present])]
  exact present

/-- A directory that already stands needs no change. -/
theorem MadeDir.of_isDir (fs : FileSystem) (path : PathBuf) (standing : fs.isDir path = true) :
    ∃ place, MadeDir fs fs path place := by
  obtain ⟨real, resolved, dir⟩ := (isDir_iff fs path).mp standing
  refine ⟨real, resolved, dir, ?_, rfl, ?_⟩
  · intro location
    by_cases missing : fs.lookup location = none ∧ location <+: real
    · have present := fs.lookup_of_prefix location real missing.2 (by simp [dir])
      simp [missing.1] at present
    · rw [if_neg missing]
  · intro anchor found
    rw [realAncestor_of_canonicalize fs path real resolved] at found
    obtain rfl : real = anchor := by simpa using found
    exact List.prefix_rfl

/-- A path whose entry is no directory has a name and a plain ending. -/
theorem named_of_plain (fs : FileSystem) (path : PathBuf) (entry : Location)
    (stands : fs.entryOf path = .ok entry) (free : fs.lookup entry ≠ some .dir) :
    path.ending = .plain ∧ ∃ name, path.fileName = some name := by
  by_cases followed : path.ending ≠ .plain ∨ path.fileName = none
  · rw [entryOf_followed fs path followed] at stands
    exact absurd (canonicalize_followed_dir fs path entry followed stands) free
  · rw [not_or, not_not] at followed
    exact ⟨followed.1, Option.ne_none_iff_exists'.mp followed.2⟩

/-- The parent of a path with a missing entry has the real place of the path. -/
theorem realAncestor_of_missing (fs : FileSystem) (path : PathBuf) (entry real : Location)
    (stands : fs.entryOf path = .ok entry) (missing : fs.lookup entry = none)
    (found : fs.realAncestor path = some real) : real <+: entry := by
  obtain ⟨reason, failed⟩ := canonicalize_error_of_missing fs path entry stands missing
  obtain ⟨plain, name, named⟩ := named_of_plain fs path entry stands (by simp [missing])
  rw [realAncestor_of_error fs path reason failed] at found
  rw [entryOf_named fs path name plain named] at stands
  cases held : fs.container path with
  | error _ => rw [held] at stands; cases stands
  | ok above =>
      rw [held] at stands
      obtain rfl : above ++ [name] = entry := by simpa [Except.map] using stands
      rcases path.parent_eq_none_or with orphan | parent
      · simp [orphan] at found
      · rw [parent, Option.bind_some] at found
        by_cases deep : path.components.dropLast = []
        · have bare : path.above.components = [] := by rw [PathBuf.above_components, deep]
          rw [realAncestor_of_error fs _ .notFound (canonicalize_nil fs _ bare)] at found
          simp [PathBuf.parent, bare] at found
        · rw [realAncestor_of_canonicalize fs _ above
            (canonicalize_parent fs path above held deep)] at found
          obtain rfl : above = real := by simpa using found
          exact List.prefix_append _ _

/-- One `mkdir` adds one directory below the real place of the parent. -/
theorem MadeDir.of_createDir (fs made : FileSystem) (path : PathBuf)
    (done : fs.createDir path = .ok made) : ∃ place, MadeDir fs made path place := by
  obtain ⟨entry, stands, missing, fits, rfl⟩ := createDir_ok fs made path done
  have more := put_extends fs entry .dir missing fits
  have same_cwd := put_cwd fs entry .dir
  have later_stands : (fs.put entry .dir).entryOf path = .ok entry :=
    entryOf_mono more.covers same_cwd path entry stands
  have standing : (fs.put entry .dir).lookup entry = some .dir := by
    rw [lookup_put fs entry .dir fits, if_pos rfl]
  refine ⟨entry, canonicalize_of_entry _ path entry .dir later_stands standing (by simp),
    standing, ?_, same_cwd, ?_⟩
  · intro location
    rw [lookup_put fs entry .dir fits]
    by_cases same : location = entry
    · subst same
      simp [missing]
    · rw [if_neg same]
      by_cases above : fs.lookup location = none ∧ location <+: entry
      · exfalso
        have deep := List.dropLast_append_getLast fits.1
        have shorter : location <+: entry.dropLast := by
          rw [← deep, List.prefix_concat_iff] at above
          rcases above.2 with whole | cut
          · exact absurd (whole.trans deep) same
          · exact cut
        have present := fs.lookup_of_prefix location _ shorter (by simp [fits.2.1])
        simp [above.1] at present
      · rw [if_neg above]
  · exact fun real found => realAncestor_of_missing fs path entry real stands missing found

/-- A `mkdir` below a new directory adds one more directory. -/
theorem MadeDir.step (fs held made : FileSystem) (path : PathBuf) (place : Location)
    (upper : MadeDir fs held path.above place) (parent : path.parent = some path.above)
    (failed : ∃ reason, fs.canonicalize path = .error reason)
    (done : held.createDir path = .ok made) : ∃ deeper, MadeDir fs made path deeper := by
  obtain ⟨deeper, lower⟩ := MadeDir.of_createDir held made path done
  obtain ⟨entry, stands, missing, -, -⟩ := createDir_ok held made path done
  obtain ⟨later_reason, later_failed⟩ := canonicalize_error_of_missing held path entry stands missing
  have inside : place <+: deeper := by
    apply lower.below
    rw [realAncestor_of_error held path later_reason later_failed, parent, Option.bind_some]
    exact realAncestor_of_canonicalize held path.above place upper.resolved
  refine ⟨deeper, lower.resolved, lower.standing, ?_, lower.cwd.trans upper.cwd, ?_⟩
  · intro location
    rw [lower.added, upper.added]
    by_cases above : location <+: place
    · have below := above.trans inside
      by_cases absent : fs.lookup location = none
      · simp [above, below, absent]
      · simp [absent]
    · simp [above]
  · intro real found
    obtain ⟨reason, failed⟩ := failed
    rw [realAncestor_of_error fs path reason failed, parent, Option.bind_some] at found
    exact (upper.below real found).trans inside

/-- A directory made for a parent is the container of the path. -/
theorem MadeDir.container {before after : FileSystem} {path : PathBuf} {place : Location}
    (made : MadeDir before after path.above place) : after.container path = .ok place :=
  container_of_parent after path place made.resolved made.standing

/-- An entry below a made directory stood there before, and so did its container. -/
theorem MadeDir.unchanged {before after : FileSystem} {path : PathBuf} {place : Location}
    (made : MadeDir before after path.above place) (name : String)
    (present : (after.lookup (place ++ [name])).isSome) : before.container path = .ok place := by
  have outside : ¬ (place ++ [name]) <+: place := by
    intro inside
    have short := inside.length_le
    simp only [List.length_append, List.length_singleton] at short
    omega
  rw [made.added, if_neg (fun both => outside both.2)] at present
  have back : before.Extends after := by
    intro location node held
    rw [made.added] at held
    split at held
    · rename_i both
      have standing := before.lookup_of_prefix location _
        (both.2.trans (List.prefix_append place [name])) present
      simp [both.1] at standing
    · exact held
  exact container_of_parent before path place
    (canonicalize_mono back.covers made.cwd.symm path.above place made.resolved)
    (back place .dir made.standing)

/-- A failed `mkdir` for a missing container leaves the entry out of reach. -/
theorem container_error_of_createDir (fs : FileSystem) (path : PathBuf) (name : String)
    (plain : path.ending = .plain) (named : path.fileName = some name)
    (failed : fs.createDir path = .error .notFound) (above : Location) :
    fs.container path ≠ .ok above := by
  intro held
  rw [createDir, entryOf_named fs path name plain named, held] at failed
  cases present : fs.lookup (above ++ [name]) <;>
    simp [Except.map, Except.bind, present] at failed

/-- A missing container hides the path. -/
theorem not_isDir_of_createDir (fs : FileSystem) (path : PathBuf)
    (failed : fs.createDir path = .error .notFound) : fs.isDir path ≠ true := by
  intro standing
  obtain ⟨real, resolved, -⟩ := (isDir_iff fs path).mp standing
  obtain ⟨reason, refused⟩ := canonicalize_error_of_createDir fs path failed
  rw [resolved] at refused
  cases refused

/-- A path whose container was missing is not there once its container is made. -/
theorem MadeDir.not_isDir {fs held : FileSystem} {path : PathBuf} {place : Location}
    (upper : MadeDir fs held path.above place) (name : String) (plain : path.ending = .plain)
    (named : path.fileName = some name) (failed : fs.createDir path = .error .notFound) :
    held.isDir path ≠ true := by
  intro standing
  obtain ⟨real, resolved, -⟩ := (isDir_iff held path).mp standing
  obtain ⟨entry, node, stands, present, -⟩ :=
    canonicalize_entry held path name real plain named resolved
  rw [entryOf_named held path name plain named, upper.container] at stands
  obtain rfl : place ++ [name] = entry := by simpa [Except.map] using stands
  exact container_error_of_createDir fs path name plain named failed place
    (upper.unchanged name (by simp [present]))

/-- The ways in which one round of `create_dir_all` ends, given what the rounds above it did. -/
inductive DirRound (fs : FileSystem) (path : PathBuf) (upper : Except Errno Unit × FileSystem) :
    Except Errno Unit × FileSystem → Prop where
  | made {after : FileSystem} (first : fs.createDir path = .ok after) :
      DirRound fs path upper (.ok (), after)
  | stood (dir : fs.isDir path = true) : DirRound fs path upper (.ok (), fs)
  | refused (reason : Errno) : DirRound fs path upper (.error reason, fs)
  | stopped {reason : Errno} {held : FileSystem} (above : upper = (.error reason, held)) :
      DirRound fs path upper (.error reason, held)
  | deeper {held after : FileSystem} (first : fs.createDir path = .error .notFound)
      (above : upper = (.ok (), held)) (second : held.createDir path = .ok after) :
      DirRound fs path upper (.ok (), after)
  | found {held : FileSystem} (first : fs.createDir path = .error .notFound)
      (above : upper = (.ok (), held)) (dir : held.isDir path = true) :
      DirRound fs path upper (.ok (), held)
  | blocked {held : FileSystem} (reason : Errno) (above : upper = (.ok (), held)) :
      DirRound fs path upper (.error reason, held)

theorem createDirAllFrom_cons (fs : FileSystem) (anchor : Anchor) (last : Segment)
    (above : List Segment) :
    DirRound fs ⟨anchor, (last :: above).reverse, .plain⟩ (fs.createDirAllFrom anchor above)
      (fs.createDirAllFrom anchor (last :: above)) := by
  rw [createDirAllFrom]
  generalize fs.createDirAllFrom anchor above = upper
  split
  · rename_i made first
    exact .made first
  · rename_i first
    rcases upper with ⟨_ | _, held⟩
    · exact .stopped rfl
    · simp only
      split
      · rename_i made second
        exact .deeper first rfl second
      · split
        · rename_i dir
          exact .found first rfl dir
        · exact .blocked _ rfl
  · split
    · rename_i dir
      exact .stood dir
    · exact .refused _

theorem createDirAllFrom_bare (fs : FileSystem) (anchor : Anchor) (reversed : List Segment)
    (bare : (PathBuf.mk anchor reversed.reverse .plain).components = []) :
    (fs.createDirAllFrom anchor reversed).2 = fs := by
  have none := (PathBuf.mk anchor reversed.reverse .plain).bare_of_components bare
  rw [List.reverse_eq_nil_iff] at none
  rw [none.2, createDirAllFrom]
  split <;> rfl

/-- `create_dir_all` without parent segments makes its directory. -/
theorem createDirAllFrom_ok (fs : FileSystem) (anchor : Anchor) (reversed : List Segment)
    (after : FileSystem) (forward : ∀ segment ∈ reversed, ∃ name, segment = .normal name)
    (present : (PathBuf.mk anchor reversed.reverse .plain).components ≠ [])
    (done : fs.createDirAllFrom anchor reversed = (.ok (), after)) :
    ∃ place, MadeDir fs after ⟨anchor, reversed.reverse, .plain⟩ place := by
  induction reversed generalizing after with
  | nil =>
      unfold createDirAllFrom at done
      split at done
      · rename_i standing
        obtain rfl : fs = after := congrArg Prod.snd done
        rw [Bool.or_eq_true] at standing
        rcases standing with bare | dir
        · rw [decide_eq_true_eq] at bare
          simp [PathBuf.components, bare, Anchor.components] at present
        · exact MadeDir.of_isDir fs _ dir
      · cases done
  | cons last above ih =>
      obtain ⟨name, rfl⟩ := forward last (List.mem_cons_self ..)
      have upper_path : (PathBuf.mk anchor (Segment.normal name :: above).reverse .plain).above =
          ⟨anchor, above.reverse, .plain⟩ := by
        rw [List.reverse_cons, PathBuf.above_concat]
      have parent : (PathBuf.mk anchor (Segment.normal name :: above).reverse .plain).parent =
          some (PathBuf.mk anchor (Segment.normal name :: above).reverse .plain).above := by
        simp [PathBuf.parent, PathBuf.components, Segment.component]
      have named : (PathBuf.mk anchor (Segment.normal name :: above).reverse .plain).fileName =
          some name := by simp [PathBuf.fileName]
      have plain : (PathBuf.mk anchor (Segment.normal name :: above).reverse .plain).ending =
          .plain := rfl
      have round := fs.createDirAllFrom_cons anchor (.normal name) above
      have upper : ∀ held, fs.createDirAllFrom anchor above = (.ok (), held) → held = fs ∨
          ∃ place, MadeDir fs held ⟨anchor, above.reverse, .plain⟩ place := by
        intro held recursed
        by_cases bare : (PathBuf.mk anchor above.reverse .plain).components = []
        · exact .inl ((congrArg Prod.snd recursed).symm.trans
            (fs.createDirAllFrom_bare anchor above bare))
        · exact .inr (ih held
            (fun segment member => forward segment (List.mem_cons_of_mem _ member)) bare recursed)
      rw [done] at round
      rw [← upper_path] at upper
      generalize PathBuf.mk anchor (Segment.normal name :: above).reverse .plain = path at *
      cases round with
      | made first => exact MadeDir.of_createDir fs after path first
      | stood dir => exact MadeDir.of_isDir fs path dir
      | deeper first recursed second =>
          rename_i held
          rcases upper held recursed with same | ⟨place, made_above⟩
          · rw [same, first] at second
            cases second
          · exact MadeDir.step fs held after path place made_above parent
              (canonicalize_error_of_createDir fs path first) second
      | found first recursed dir =>
          rcases upper after recursed with same | ⟨place, made_above⟩
          · rw [same] at dir
            exact absurd dir (fs.not_isDir_of_createDir path first)
          · exact absurd dir (made_above.not_isDir name plain named first)

/-- A file is changed where the entry differs and is not a new directory. -/
def FileChanged (before after : FileSystem) (location : Location) : Prop :=
  before.lookup location ≠ after.lookup location ∧
    ¬ (before.lookup location = none ∧ after.lookup location = some .dir)

/-- A step that changes no file adds directories at most. -/
def AddsDirs (before after : FileSystem) : Prop :=
  ∀ location, ¬ FileChanged before after location

theorem AddsDirs.refl (fs : FileSystem) : AddsDirs fs fs :=
  fun _ changed => changed.1 rfl

theorem AddsDirs.cases {before after : FileSystem} (adds : AddsDirs before after)
    (location : Location) : before.lookup location = after.lookup location ∨
      (before.lookup location = none ∧ after.lookup location = some .dir) := by
  have kept := adds location
  unfold FileChanged at kept
  by_cases same : before.lookup location = after.lookup location
  · exact .inl same
  · exact .inr (not_not.mp fun other => kept ⟨same, other⟩)

/-- A file that a later step changes is changed over both steps, and no other file is. -/
theorem AddsDirs.changed {before held after : FileSystem} (adds : AddsDirs before held)
    (location : Location) (changed : FileChanged before after location) :
    FileChanged held after location := by
  rcases adds.cases location with same | ⟨missing, made⟩
  · unfold FileChanged at changed ⊢
    rwa [← same]
  · refine ⟨fun same => changed.2 ⟨missing, same.symm.trans made⟩, fun both => ?_⟩
    rw [made] at both
    cases both.1

theorem AddsDirs.trans {before held after : FileSystem} (first : AddsDirs before held)
    (second : AddsDirs held after) : AddsDirs before after :=
  fun location changed => second location (first.changed location changed)

theorem AddsDirs.missing {before after : FileSystem} (adds : AddsDirs before after)
    (location : Location) (missing : after.lookup location = none) :
    before.lookup location = none := by
  rcases adds.cases location with same | ⟨before_missing, -⟩
  · rw [same, missing]
  · exact before_missing

theorem createDir_addsDirs (fs made : FileSystem) (path : PathBuf)
    (done : fs.createDir path = .ok made) : AddsDirs fs made := by
  obtain ⟨entry, -, missing, fits, rfl⟩ := createDir_ok fs made path done
  intro location changed
  unfold FileChanged at changed
  rw [lookup_put fs entry .dir fits] at changed
  by_cases same : location = entry
  · simp [same, missing] at changed
  · simp [same] at changed

/-- `create_dir_all` changes no file, and directories it made stay when it fails. -/
theorem createDirAllFrom_addsDirs (fs : FileSystem) (anchor : Anchor) (reversed : List Segment) :
    AddsDirs fs (fs.createDirAllFrom anchor reversed).2 := by
  induction reversed with
  | nil =>
      unfold createDirAllFrom
      split <;> exact .refl fs
  | cons last above ih =>
      have round := fs.createDirAllFrom_cons anchor last above
      generalize fs.createDirAllFrom anchor (last :: above) = result at round
      cases round with
      | made first => exact createDir_addsDirs fs _ _ first
      | stood _ => exact .refl fs
      | refused _ => exact .refl fs
      | stopped recursed => rwa [recursed] at ih
      | deeper _ recursed second =>
          rw [recursed] at ih
          exact ih.trans (createDir_addsDirs _ _ _ second)
      | found _ recursed _ => rwa [recursed] at ih
      | blocked _ recursed => rwa [recursed] at ih

/-- `create_dir_all` leaves the file system alone for a path without components, and it makes the
directory of every other path without parent segments. -/
theorem createDirAll_above (fs after : FileSystem) (path : PathBuf)
    (forward : path.hasParentDir = false)
    (done : fs.createDirAll path.above = (.ok (), after)) :
    after = fs ∨ ∃ place, MadeDir fs after path.above place := by
  have spelled : path.above = ⟨path.above.anchor, path.above.segments.reverse.reverse, .plain⟩ := by
    rw [List.reverse_reverse, ← path.above_ending]
  by_cases present : path.above.components = []
  · left
    have bare := path.above.bare_of_components present
    rw [createDirAll, bare.1, bare.2, List.reverse_nil, createDirAllFrom] at done
    exact (congrArg Prod.snd done).symm
  · right
    rw [spelled] at present ⊢
    refine createDirAllFrom_ok fs _ _ after ?_ present done
    intro segment member
    rw [List.mem_reverse] at member
    refine path.segments_normal forward segment ?_
    unfold PathBuf.above at member
    split at member
    · simp at member
    · exact List.dropLast_subset _ member

end Posix.FileSystem
