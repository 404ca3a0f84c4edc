import Mathlib.Data.List.Induction
import SynthHiresBridge.Posix.Resolve

namespace Posix.FileSystem

/-- `mkdir` adds a directory under a free name. -/
def createDir (fs : FileSystem) (path : PathBuf) : Except Errno FileSystem :=
  (fs.entryOf path).bind fun entry =>
    match fs.lookup entry with
    | some _ => .error .alreadyExists
    | none => .ok (fs.put entry .dir)

/-- `fs::create_dir_all` creates a directory after its missing parents.
The segments are listed in reverse. -/
def createDirAllFrom (fs : FileSystem) (anchor : Anchor) :
    List Segment → Except Errno Unit × FileSystem
  | [] =>
      if anchor = .bare || fs.isDir ⟨anchor, [], .plain⟩ then (.ok (), fs)
      else (.error .notFound, fs)
  | last :: above =>
      let path : PathBuf := ⟨anchor, (last :: above).reverse, .plain⟩
      match fs.createDir path with
      | .ok made => (.ok (), made)
      | .error .notFound => match createDirAllFrom fs anchor above with
          | (.error reason, held) => (.error reason, held)
          | (.ok (), held) => match held.createDir path with
            | .ok made => (.ok (), made)
            | .error reason =>
                if held.isDir path then (.ok (), held) else (.error reason, held)
      | .error reason => if fs.isDir path then (.ok (), fs) else (.error reason, fs)

/-- A parent path has a plain ending, so the whole path is its anchor and segments. -/
def createDirAll (fs : FileSystem) (path : PathBuf) : Except Errno Unit × FileSystem :=
  fs.createDirAllFrom path.anchor path.segments.reverse

/-- `OpenOptions::create_new` refuses every name that is taken, a link included. -/
def createNew (fs : FileSystem) (path : PathBuf) (bytes : List UInt8) :
    Except Errno FileSystem :=
  (fs.entryOf path).bind fun entry =>
    match fs.lookup entry with
    | some _ => .error .alreadyExists
    | none => .ok (fs.put entry (.file bytes))

/-- `fs::write` follows links and creates or overwrites the file they lead to. -/
def writeFile (fs : FileSystem) (path : PathBuf) (bytes : List UInt8) :
    Except Errno FileSystem :=
  (fs.createTarget path).bind fun target =>
    match fs.lookup target with
    | some .dir => .error .isADirectory
    | _ => .ok (fs.put target (.file bytes))

/-- `fs::rename` moves a file or a link over a name that is no directory.
The daemon renames no directory, so that case is an error here. -/
def rename (fs : FileSystem) (source target : PathBuf) : Except Errno FileSystem :=
  (fs.entryOf source).bind fun old =>
    match fs.lookup old with
    | none => .error .notFound
    | some .dir => .error .invalidInput
    | some node => (fs.entryOf target).bind fun new =>
        if fs.lookup new = some .dir then .error .isADirectory
        else if old = new then .ok fs
        else .ok ((fs.put new node).removeTree old)

/-- `fs::remove_file` unlinks an entry that is no directory. -/
def removeFile (fs : FileSystem) (path : PathBuf) : Except Errno FileSystem :=
  (fs.entryOf path).bind fun entry =>
    match fs.lookup entry with
    | none => .error .notFound
    | some .dir => .error .isADirectory
    | some _ => .ok (fs.removeTree entry)

/-- A directory can be unlinked under its own name, and a closing slash must not hide a link. -/
def ownName (fs : FileSystem) (path : PathBuf) (entry : Location) : Bool :=
  match path.ending, path.fileName with
  | .plain, some _ => true
  | .slash, some _ => fs.entryOf ⟨path.anchor, path.segments, .plain⟩ == .ok entry
  | _, _ => false

/-- `fs::remove_dir_all` unlinks a link and empties a directory before it unlinks it.
A path that does not name the directory fails after the directory is empty. -/
def removeDirAll (fs : FileSystem) (path : PathBuf) : Except Errno Unit × FileSystem :=
  match fs.entryOf path with
  | .error reason => (.error reason, fs)
  | .ok entry => match fs.lookup entry with
    | none => (.error .notFound, fs)
    | some (.file _) => (.error .notADirectory, fs)
    | some (.symlink _) => (.ok (), fs.removeTree entry)
    | some .dir =>
        if fs.ownName path entry && entry != [] then (.ok (), fs.removeTree entry)
        else (.error .invalidInput, fs.removeChildren entry)

/-- Entries above an entry exist. -/
theorem lookup_above (fs : FileSystem) (location : Location) (rest : List String)
    (present : (fs.lookup (location ++ rest)).isSome) : (fs.lookup location).isSome := by
  induction rest using List.reverseRecOn with
  | nil => simpa using present
  | append_singleton rest name ih =>
      apply ih
      obtain ⟨node, same⟩ := Option.isSome_iff_exists.mp present
      rw [← List.append_assoc] at same
      simp [fs.lookup_parent _ name node same]

theorem lookup_of_prefix (fs : FileSystem) (upper lower : Location) (above : upper <+: lower)
    (present : (fs.lookup lower).isSome) : (fs.lookup upper).isSome := by
  obtain ⟨rest, rfl⟩ := above
  exact fs.lookup_above upper rest present

/-- Nothing stands below a missing entry. -/
theorem lookup_none_below (fs : FileSystem) (upper lower : Location) (above : upper <+: lower)
    (missing : fs.lookup upper = none) : fs.lookup lower = none := by
  cases present : fs.lookup lower with
  | none => rfl
  | some node =>
      have real := fs.lookup_of_prefix upper lower above (by simp [present])
      simp [missing] at real

/-- Only the entry itself stands at or below an entry that is no directory. -/
theorem lookup_below_plain (fs : FileSystem) (upper lower : Location) (above : upper <+: lower)
    (different : upper ≠ lower) (plain : fs.lookup upper ≠ some .dir) :
    fs.lookup lower = none := by
  obtain ⟨rest, rfl⟩ := above
  cases rest with
  | nil => simp at different
  | cons name rest =>
      have first := fs.lookup_below upper name plain
      have split : upper ++ name :: rest = (upper ++ [name]) ++ rest := by simp
      rw [split]
      exact fs.lookup_none_below (upper ++ [name]) _ (List.prefix_append _ _) first

/-- Removing an entry that is no directory changes that entry alone. -/
theorem lookup_removeTree_plain (fs : FileSystem) (entry place : Location) (nested : entry ≠ [])
    (plain : fs.lookup entry ≠ some .dir) :
    (fs.removeTree entry).lookup place = if place = entry then none else fs.lookup place := by
  rw [lookup_removeTree fs entry place nested]
  by_cases same : place = entry
  · subst same
    simp
  · rw [if_neg same]
    split
    · rename_i covered
      exact (fs.lookup_below_plain entry place (List.isPrefixOf_iff_prefix.mp covered)
        (Ne.symm same) plain).symm
    · rfl

/-- `mkdir` succeeds under a free name only. -/
theorem createDir_ok (fs made : FileSystem) (path : PathBuf) (done : fs.createDir path = .ok made) :
    ∃ entry, fs.entryOf path = .ok entry ∧ fs.lookup entry = none ∧ fs.Puttable entry ∧
      made = fs.put entry .dir := by
  unfold createDir at done
  cases stands : fs.entryOf path with
  | error _ => rw [stands] at done; cases done
  | ok entry =>
      rw [stands] at done
      simp only [Except.bind] at done
      cases present : fs.lookup entry with
      | some _ => rw [present] at done; cases done
      | none =>
          rw [present] at done
          refine ⟨entry, rfl, present, ?_, (Except.ok.inj done).symm⟩
          exact puttable_of_entryOf fs path entry stands (by simp [present])

/-- A new file takes a free name only. -/
theorem createNew_ok (fs made : FileSystem) (path : PathBuf) (bytes : List UInt8)
    (done : fs.createNew path bytes = .ok made) :
    ∃ entry, fs.entryOf path = .ok entry ∧ fs.lookup entry = none ∧ fs.Puttable entry ∧
      made = fs.put entry (.file bytes) := by
  unfold createNew at done
  cases stands : fs.entryOf path with
  | error _ => rw [stands] at done; cases done
  | ok entry =>
      rw [stands] at done
      simp only [Except.bind] at done
      cases present : fs.lookup entry with
      | some _ => rw [present] at done; cases done
      | none =>
          rw [present] at done
          refine ⟨entry, rfl, present, ?_, (Except.ok.inj done).symm⟩
          exact puttable_of_entryOf fs path entry stands (by simp [present])

/-- Only an entry that is no directory is unlinked. -/
theorem removeFile_ok (fs removed : FileSystem) (path : PathBuf)
    (done : fs.removeFile path = .ok removed) :
    ∃ entry, fs.entryOf path = .ok entry ∧ (fs.lookup entry).isSome ∧ entry ≠ [] ∧
      removed = fs.removeTree entry := by
  unfold removeFile at done
  cases stands : fs.entryOf path with
  | error _ => rw [stands] at done; cases done
  | ok entry =>
      rw [stands] at done
      simp only [Except.bind] at done
      have nested : entry ≠ [] := by
        rintro rfl
        simp at done
      cases present : fs.lookup entry with
      | none => simp [present] at done
      | some node =>
          cases node <;> simp [present] at done <;>
            exact ⟨entry, rfl, by simp [present], nested, done.symm⟩

/-- The ways in which `remove_dir_all` ends. -/
inductive DirRemoval (fs : FileSystem) (path : PathBuf) : Except Errno Unit × FileSystem → Prop where
  | refused (reason : Errno) : DirRemoval fs path (.error reason, fs)
  | removed (entry : Location) (stands : fs.entryOf path = .ok entry)
      (present : (fs.lookup entry).isSome) (nested : entry ≠ []) :
      DirRemoval fs path (.ok (), fs.removeTree entry)
  | emptied (entry : Location) (stands : fs.entryOf path = .ok entry) (reason : Errno) :
      DirRemoval fs path (.error reason, fs.removeChildren entry)

theorem removeDirAll_case (fs : FileSystem) (path : PathBuf) :
    DirRemoval fs path (fs.removeDirAll path) := by
  unfold removeDirAll
  cases stands : fs.entryOf path with
  | error reason => exact .refused reason
  | ok entry =>
      simp only
      cases present : fs.lookup entry with
      | none => exact .refused _
      | some node =>
          cases node with
          | file _ => exact .refused _
          | symlink target =>
              refine .removed entry stands (by simp [present]) ?_
              rintro rfl
              simp at present
          | dir =>
              simp only
              split
              · rename_i own
                rw [Bool.and_eq_true, bne_iff_ne] at own
                exact .removed entry stands (by simp [present]) own.2
              · exact .emptied entry stands _

/-- A path whose entry cannot be reached does not resolve. -/
theorem canonicalize_error_of_createDir (fs : FileSystem) (path : PathBuf)
    (failed : fs.createDir path = .error .notFound) :
    ∃ reason, fs.canonicalize path = .error reason := by
  cases resolved : fs.canonicalize path with
  | error reason => exact ⟨reason, rfl⟩
  | ok real =>
      exfalso
      obtain ⟨entry, stands, present⟩ : ∃ entry, fs.entryOf path = .ok entry ∧
          (fs.lookup entry).isSome := by
        by_cases followed : path.ending ≠ .plain ∨ path.fileName = none
        · exact ⟨real, by rw [entryOf_followed fs path followed, resolved],
            canonicalize_exists fs path real resolved⟩
        · rw [not_or, not_not] at followed
          obtain ⟨name, named⟩ := Option.ne_none_iff_exists'.mp followed.2
          obtain ⟨entry, node, stands, present, _⟩ :=
            canonicalize_entry fs path name real followed.1 named resolved
          exact ⟨entry, stands, by simp [present]⟩
      obtain ⟨node, same⟩ := Option.isSome_iff_exists.mp present
      rw [createDir, stands] at failed
      simp only [Except.bind, same] at failed
      cases failed

theorem isDir_iff (fs : FileSystem) (path : PathBuf) :
    fs.isDir path = true ↔ ∃ real, fs.canonicalize path = .ok real ∧ fs.lookup real = some .dir := by
  unfold isDir metadata
  cases fs.canonicalize path with
  | error _ => simp [Except.bind]
  | ok real =>
      simp only [Except.bind, Except.ok.injEq, exists_eq_left']
      cases present : fs.lookup real with
      | none => simp
      | some node => cases node <;> simp

end Posix.FileSystem
