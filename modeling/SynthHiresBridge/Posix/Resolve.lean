import SynthHiresBridge.Posix.Walk

namespace Posix.FileSystem

/-- `canonicalize` follows every link and needs the last name to exist. -/
def canonicalize (fs : FileSystem) (path : PathBuf) : Except Errno Location :=
  if path.components = [] then .error .notFound
  else (fs.walk false maxSymlinks fs.cwd path.osComponents).map Prod.fst

/-- The containing directory of a path, with its links followed. -/
def container (fs : FileSystem) (path : PathBuf) : Except Errno Location :=
  (fs.walk false maxSymlinks fs.cwd path.components.dropLast).bind fun reached =>
    (fs.enter reached.1).map fun _ => reached.1

/-- The entry of a path is named in its containing directory, and the entry itself is not followed.
A closing separator makes the operating system follow it. -/
def entryOf (fs : FileSystem) (path : PathBuf) : Except Errno Location :=
  match path.ending, path.fileName with
  | .plain, some name => (fs.container path).map fun above => above ++ [name]
  | _, _ => fs.canonicalize path

/-- An open call that creates follows links, and the last name may be missing. -/
def createTarget (fs : FileSystem) (path : PathBuf) : Except Errno Location :=
  if path.components = [] then .error .notFound
  else (fs.walk true maxSymlinks fs.cwd path.osComponents).map Prod.fst

/-- `symlink_metadata` reads the entry itself. -/
def symlinkMetadata (fs : FileSystem) (path : PathBuf) : Except Errno Node :=
  (fs.entryOf path).bind fun entry =>
    match fs.lookup entry with
    | none => .error .notFound
    | some node => .ok node

/-- `metadata` reads what the path leads to. -/
def metadata (fs : FileSystem) (path : PathBuf) : Except Errno Node :=
  (fs.canonicalize path).bind fun real =>
    match fs.lookup real with
    | none => .error .notFound
    | some node => .ok node

def isDir (fs : FileSystem) (path : PathBuf) : Bool :=
  match fs.metadata path with
  | .ok .dir => true
  | _ => false

/-- `Path::exists` is true when the path leads somewhere. -/
def pathExists (fs : FileSystem) (path : PathBuf) : Bool :=
  match fs.metadata path with
  | .ok _ => true
  | .error _ => false

/-- `fs::read` returns the bytes of the file a path leads to. -/
def read (fs : FileSystem) (path : PathBuf) : Except Errno (List UInt8) :=
  (fs.metadata path).bind fun node =>
    match node with
    | .file bytes => .ok bytes
    | .dir => .error .isADirectory
    | .symlink _ => .error .filesystemLoop

/-- The nearest ancestor that resolves gives the real place of a path that may not exist yet. -/
def realAncestor (fs : FileSystem) (path : PathBuf) : Option Location :=
  path.ancestors.findSome? fun probe => (fs.canonicalize probe).toOption

theorem canonicalize_nil (fs : FileSystem) (path : PathBuf) (empty : path.components = []) :
    fs.canonicalize path = .error .notFound := by
  rw [canonicalize, if_pos empty]

theorem canonicalize_ne_nil (fs : FileSystem) (path : PathBuf) (named : path.components ≠ []) :
    fs.canonicalize path = (fs.walk false maxSymlinks fs.cwd path.osComponents).map Prod.fst := by
  rw [canonicalize, if_neg named]

theorem components_ne_nil_of_canonicalize (fs : FileSystem) (path : PathBuf) (real : Location)
    (resolved : fs.canonicalize path = .ok real) : path.components ≠ [] := by
  intro empty
  rw [canonicalize_nil fs path empty] at resolved
  cases resolved

theorem osComponents_ne_nil (path : PathBuf) (named : path.components ≠ []) :
    path.osComponents ≠ [] := by
  unfold PathBuf.osComponents
  split
  · exact named
  · simp

/-- A resolved path leads to an entry that exists. -/
theorem canonicalize_exists (fs : FileSystem) (path : PathBuf) (real : Location)
    (resolved : fs.canonicalize path = .ok real) : (fs.lookup real).isSome := by
  have named := components_ne_nil_of_canonicalize fs path real resolved
  rw [canonicalize_ne_nil fs path named] at resolved
  cases walked : fs.walk false maxSymlinks fs.cwd path.osComponents with
  | error _ => rw [walked] at resolved; cases resolved
  | ok reached =>
      rw [walked] at resolved
      obtain rfl : reached.1 = real := by simpa [Except.map] using resolved
      exact walk_exists fs _ _ _ reached walked
        fun empty => absurd empty (osComponents_ne_nil path named)

/-- The entry of a named path lies in its container. -/
theorem entryOf_named (fs : FileSystem) (path : PathBuf) (name : String)
    (plain : path.ending = .plain) (named : path.fileName = some name) :
    fs.entryOf path = (fs.container path).map fun above => above ++ [name] := by
  simp [entryOf, plain, named]

/-- Every other path has the entry it leads to. -/
theorem entryOf_followed (fs : FileSystem) (path : PathBuf)
    (followed : path.ending ≠ .plain ∨ path.fileName = none) :
    fs.entryOf path = fs.canonicalize path := by
  unfold entryOf
  split
  · rename_i plain named
    rcases followed with closed | nameless
    · exact absurd plain closed
    · rw [nameless] at named
      cases named
  · rfl

/-- The container of a path is a directory. -/
theorem container_dir (fs : FileSystem) (path : PathBuf) (above : Location)
    (held : fs.container path = .ok above) : fs.lookup above = some .dir := by
  unfold container at held
  cases walked : fs.walk false maxSymlinks fs.cwd path.components.dropLast with
  | error _ => rw [walked] at held; cases held
  | ok reached =>
      rw [walked] at held
      simp only [Except.bind] at held
      cases entered : fs.enter reached.1 with
      | error _ => rw [entered] at held; cases held
      | ok _ =>
          rw [entered] at held
          obtain rfl : reached.1 = above := by simpa [Except.map] using held
          exact (enter_ok_iff fs reached.1).mp entered

/-- A named path resolves through its container. -/
theorem canonicalize_named (fs : FileSystem) (path : PathBuf) (name : String)
    (plain : path.ending = .plain) (named : path.fileName = some name) :
    fs.canonicalize path =
      ((fs.walk false maxSymlinks fs.cwd path.components.dropLast).bind fun reached =>
        fs.walk false reached.2 reached.1 [.normal name]).map Prod.fst := by
  have split := PathBuf.components_of_fileName path name named
  have present : path.components ≠ [] := by rw [split]; simp
  have os : path.osComponents = path.components.dropLast ++ [.normal name] := by
    unfold PathBuf.osComponents
    rw [plain]
    exact split
  rw [canonicalize_ne_nil fs path present, os]
  rw [walk_append fs false _ _ _ [.normal name] (by simp)]

/-- A resolved named path has an entry, and an entry that is no link is its real place. -/
theorem canonicalize_entry (fs : FileSystem) (path : PathBuf) (name : String) (real : Location)
    (plain : path.ending = .plain) (named : path.fileName = some name)
    (resolved : fs.canonicalize path = .ok real) :
    ∃ entry node, fs.entryOf path = .ok entry ∧ fs.lookup entry = some node ∧
      ((∀ target, node ≠ .symlink target) → real = entry) := by
  rw [canonicalize_named fs path name plain named] at resolved
  rw [entryOf_named fs path name plain named, container]
  cases walked : fs.walk false maxSymlinks fs.cwd path.components.dropLast with
  | error _ => rw [walked] at resolved; cases resolved
  | ok reached =>
      rw [walked] at resolved
      simp only [Except.bind, walk_normal] at resolved ⊢
      cases entered : fs.enter reached.1 with
      | error _ => rw [entered] at resolved; cases resolved
      | ok _ =>
          rw [entered] at resolved
          refine ⟨reached.1 ++ [name], ?_⟩
          cases present : fs.lookup (reached.1 ++ [name]) with
          | none => simp [present, Except.map] at resolved
          | some node =>
              refine ⟨node, rfl, rfl, ?_⟩
              intro real_entry
              cases node with
              | symlink target => exact absurd rfl (real_entry target)
              | dir => simpa [present, Except.map, eq_comm] using resolved
              | file bytes => simpa [present, Except.map, eq_comm] using resolved

/-- An existing entry that is no link is the real place of its path. -/
theorem canonicalize_of_entry (fs : FileSystem) (path : PathBuf) (entry : Location) (node : Node)
    (stands : fs.entryOf path = .ok entry) (present : fs.lookup entry = some node)
    (solid : ∀ target, node ≠ .symlink target) : fs.canonicalize path = .ok entry := by
  by_cases followed : path.ending ≠ .plain ∨ path.fileName = none
  · rwa [entryOf_followed fs path followed] at stands
  · rw [not_or, not_not] at followed
    obtain ⟨name, named⟩ := Option.ne_none_iff_exists'.mp followed.2
    rw [canonicalize_named fs path name followed.1 named]
    rw [entryOf_named fs path name followed.1 named, container] at stands
    cases walked : fs.walk false maxSymlinks fs.cwd path.components.dropLast with
    | error _ => rw [walked] at stands; cases stands
    | ok reached =>
        rw [walked] at stands
        simp only [Except.bind, walk_normal] at stands ⊢
        cases entered : fs.enter reached.1 with
        | error _ => rw [entered] at stands; cases stands
        | ok _ =>
            rw [entered] at stands
            obtain rfl : reached.1 ++ [name] = entry := by simpa [Except.map] using stands
            rw [present]
            cases node with
            | symlink target => exact absurd rfl (solid target)
            | dir => simp [Except.map]
            | file bytes => simp [Except.map]

/-- A path without a plain last name ends in a component that is no name. -/
theorem osComponents_followed (path : PathBuf) (named : path.components ≠ [])
    (followed : path.ending ≠ .plain ∨ path.fileName = none) :
    ∃ before last, path.osComponents = before ++ [last] ∧ ∀ name, last ≠ .normal name := by
  by_cases plain : path.ending = .plain
  · have nameless := followed.resolve_left (not_not.mpr plain)
    rcases List.eq_nil_or_concat path.components with empty | ⟨before, last, same⟩
    · exact absurd empty named
    · refine ⟨before, last, by simpa [PathBuf.osComponents, plain] using same, ?_⟩
      rintro name rfl
      rw [List.concat_eq_append] at same
      rw [PathBuf.fileName_of_components path before name same] at nameless
      cases nameless
  · refine ⟨path.components, .curDir, ?_, by simp⟩
    unfold PathBuf.osComponents
    split
    · contradiction
    · rfl

/-- A path that names no last entry leads to a directory. -/
theorem canonicalize_followed_dir (fs : FileSystem) (path : PathBuf) (real : Location)
    (followed : path.ending ≠ .plain ∨ path.fileName = none)
    (resolved : fs.canonicalize path = .ok real) : fs.lookup real = some .dir := by
  have named := components_ne_nil_of_canonicalize fs path real resolved
  rw [canonicalize_ne_nil fs path named] at resolved
  obtain ⟨before, last, same, marker⟩ := osComponents_followed path named followed
  rw [same, walk_append fs false _ _ _ [last] (by simp)] at resolved
  cases walked : fs.walk false maxSymlinks fs.cwd before with
  | error _ => rw [walked] at resolved; cases resolved
  | ok reached =>
      rw [walked] at resolved
      simp only [Except.bind] at resolved
      cases last with
      | rootDir =>
          obtain rfl : ([] : Location) = real := by simpa [Except.map] using resolved
          simp
      | curDir =>
          rw [walk_curDir] at resolved
          cases entered : fs.enter reached.1 with
          | error _ => rw [entered] at resolved; cases resolved
          | ok _ =>
              obtain rfl : reached.1 = real := by
                simpa [entered, Except.bind, Except.map] using resolved
              exact (enter_ok_iff fs reached.1).mp entered
      | parentDir =>
          rw [walk_parentDir] at resolved
          cases entered : fs.enter reached.1 with
          | error _ => rw [entered] at resolved; cases resolved
          | ok _ =>
              obtain rfl : reached.1.dropLast = real := by
                simpa [entered, Except.bind, Except.map] using resolved
              exact fs.lookup_dropLast reached.1 ((enter_ok_iff fs reached.1).mp entered)
      | normal name => exact absurd rfl (marker name)

/-- A path whose entry is no directory may be written there. -/
theorem puttable_of_entryOf (fs : FileSystem) (path : PathBuf) (entry : Location)
    (stands : fs.entryOf path = .ok entry) (free : fs.lookup entry ≠ some .dir) :
    fs.Puttable entry := by
  by_cases followed : path.ending ≠ .plain ∨ path.fileName = none
  · rw [entryOf_followed fs path followed] at stands
    exact absurd (canonicalize_followed_dir fs path entry followed stands) free
  · rw [not_or, not_not] at followed
    obtain ⟨name, named⟩ := Option.ne_none_iff_exists'.mp followed.2
    rw [entryOf_named fs path name followed.1 named] at stands
    cases held : fs.container path with
    | error _ => rw [held] at stands; cases stands
    | ok above =>
        rw [held] at stands
        obtain rfl : above ++ [name] = entry := by simpa [Except.map] using stands
        refine ⟨by simp, ?_, free⟩
        rw [List.dropLast_concat]
        exact container_dir fs path above held

theorem realAncestor_of_canonicalize (fs : FileSystem) (path : PathBuf) (real : Location)
    (resolved : fs.canonicalize path = .ok real) : fs.realAncestor path = some real := by
  simp [realAncestor, PathBuf.ancestors, resolved, Except.toOption]

/-- A path that does not resolve has the real place of its parent. -/
theorem realAncestor_of_error (fs : FileSystem) (path : PathBuf) (reason : Errno)
    (failed : fs.canonicalize path = .error reason) :
    fs.realAncestor path = path.parent.bind fs.realAncestor := by
  rw [realAncestor, PathBuf.ancestors_eq]
  simp only [List.findSome?_cons, failed, Except.toOption]
  cases path.parent with
  | none => rfl
  | some above => rfl

/-- The nearest ancestor that resolves exists. -/
theorem realAncestor_exists (fs : FileSystem) (path : PathBuf) (real : Location)
    (found : fs.realAncestor path = some real) : (fs.lookup real).isSome := by
  obtain ⟨probe, -, resolved⟩ := List.exists_of_findSome?_eq_some found
  cases outcome : fs.canonicalize probe with
  | error _ => rw [outcome] at resolved; cases resolved
  | ok place =>
      rw [outcome] at resolved
      obtain rfl : place = real := by simpa [Except.toOption] using resolved
      exact canonicalize_exists fs probe place outcome

end Posix.FileSystem
