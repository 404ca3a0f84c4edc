import SynthHiresBridge.Posix.Replace

namespace Posix.FileSystem

/-- A walk that needs no new name ends where the creating walk ends. -/
theorem walk_create (fs : FileSystem) (left : Nat) (place : Location)
    (components : List Component) (reached : Location × Nat)
    (walked : fs.walk false left place components = .ok reached) :
    fs.walk true left place components = .ok reached := by
  have walks := walks_of_walk fs _ _ _ _ _ walked
  clear walked
  apply Walks.walk
  induction walks with
  | done left place => exact .done left place
  | rootDir _ ih => exact .rootDir ih
  | curDir standing _ ih => exact .curDir standing ih
  | parentDir standing _ ih => exact .parentDir standing ih
  | created creates _ _ => cases creates
  | linked standing link _ ih => exact .linked standing link ih
  | passed standing present solid _ ih => exact .passed standing present solid ih

/-- A creating walk reads its last name once a file stands there. -/
theorem walk_created {later earlier : FileSystem} (more : later.Covers earlier) (bytes : List UInt8)
    (left : Nat) (place : Location) (components : List Component) (reached : Location × Nat)
    (walked : earlier.walk true left place components = .ok reached)
    (standing : later.lookup reached.1 = some (.file bytes)) :
    later.walk false left place components = .ok reached := by
  have walks := walks_of_walk earlier _ _ _ _ _ walked
  clear walked
  apply Walks.walk
  induction walks with
  | done left place => exact .done left place
  | rootDir _ ih => exact .rootDir (ih standing)
  | curDir entered _ ih => exact .curDir (more.dir _ entered) (ih standing)
  | parentDir entered _ ih => exact .parentDir (more.dir _ entered) (ih standing)
  | created _ entered _ =>
      exact .passed (more.dir _ entered) standing (by simp) (.done _ _)
  | linked entered link _ ih =>
      exact .linked (more.dir _ entered) (more.symlink _ _ link) (ih standing)
  | passed entered present solid _ ih =>
      obtain ⟨held, still, plain⟩ := more.solid _ _ present solid
      exact .passed (more.dir _ entered) still plain (ih standing)

/-- What a path leads to is no link. -/
theorem metadata_solid (fs : FileSystem) (path link : PathBuf) :
    fs.metadata path ≠ .ok (.symlink link) := by
  intro seen
  unfold metadata at seen
  cases resolved : fs.canonicalize path with
  | error _ => rw [resolved] at seen; cases seen
  | ok real =>
      rw [resolved] at seen
      have named := components_ne_nil_of_canonicalize fs path real resolved
      rw [canonicalize_ne_nil fs path named] at resolved
      cases walked : fs.walk false maxSymlinks fs.cwd path.osComponents with
      | error _ => rw [walked] at resolved; cases resolved
      | ok reached =>
          rw [walked] at resolved
          obtain rfl : reached.1 = real := by simpa [Except.map] using resolved
          have lands := fs.walk_lands _ _ _ reached (fs.walk_create _ _ _ reached walked)
            fun empty => absurd empty (osComponents_ne_nil path named)
          simp only [Except.bind] at seen
          cases present : fs.lookup reached.1 with
          | none => rw [present] at seen; cases seen
          | some node =>
              rw [present] at seen
              obtain rfl : node = .symlink link := Except.ok.inj seen
              exact lands.1 link present

theorem metadata_of_read (fs : FileSystem) (path : PathBuf) (bytes : List UInt8)
    (reads : fs.read path = .ok bytes) : fs.metadata path = .ok (.file bytes) := by
  unfold read at reads
  cases seen : fs.metadata path with
  | error _ => rw [seen] at reads; cases reads
  | ok node =>
      rw [seen] at reads
      cases node with
      | dir => cases reads
      | symlink link => cases reads
      | file other => rw [Except.ok.inj reads]

/-- A written path reads back its bytes. -/
theorem read_written (fs written : FileSystem) (path : PathBuf) (bytes : List UInt8)
    (done : fs.writeFile path bytes = .ok written) : written.read path = .ok bytes := by
  obtain ⟨place, aimed, fits, unlinked, rfl⟩ := writeFile_ok fs written path bytes done
  have standing : (fs.put place (.file bytes)).lookup place = some (.file bytes) := by
    rw [lookup_put fs place _ fits, if_pos rfl]
  have resolved : (fs.put place (.file bytes)).canonicalize path = .ok place := by
    unfold createTarget at aimed
    split at aimed
    · cases aimed
    · rename_i named
      rw [canonicalize_ne_nil _ path named, put_cwd]
      cases walked : fs.walk true maxSymlinks fs.cwd path.osComponents with
      | error _ => rw [walked] at aimed; cases aimed
      | ok reached =>
          rw [walked] at aimed
          obtain rfl : reached.1 = place := Except.ok.inj aimed
          rw [walk_created (put_covers fs reached.1 bytes fits unlinked) bytes _ _ _ reached walked
            standing]
          rfl
  rw [read, metadata, resolved]
  simp [Except.bind, standing]

/-- A write makes the missing parents of its path first. -/
def makeParents (fs : FileSystem) (path : PathBuf) : Except Errno Unit × FileSystem :=
  match path.parent with
  | none => (.ok (), fs)
  | some parent => fs.createDirAll parent

/-- A path can be written when its parents can be made and no directory stands there. -/
def Writable (fs : FileSystem) (path : PathBuf) : Prop :=
  ∃ made place, fs.makeParents path = (.ok (), made) ∧ made.createTarget path = .ok place ∧
    made.lookup place ≠ some .dir

/-- A file is written where no directory stands. -/
theorem writeFile_iff (fs : FileSystem) (path : PathBuf) (bytes : List UInt8) :
    (∃ written, fs.writeFile path bytes = .ok written) ↔
      ∃ place, fs.createTarget path = .ok place ∧ fs.lookup place ≠ some .dir := by
  constructor
  · rintro ⟨written, done⟩
    obtain ⟨place, aimed, fits, -⟩ := writeFile_ok fs written path bytes done
    exact ⟨place, aimed, fits.2.2⟩
  · rintro ⟨place, aimed, solid⟩
    rw [writeFile, aimed]
    simp only [Except.bind]
    exact ⟨_, rfl⟩

/-- A file is written after the missing parents of its path are made. -/
def writeWithParents (fs : FileSystem) (path : PathBuf) (bytes : List UInt8) :
    Except Errno Unit × FileSystem :=
  match fs.makeParents path with
  | (.error errno, made) => (.error errno, made)
  | (.ok _, made) => match made.writeFile path bytes with
      | .error errno => (.error errno, made)
      | .ok written => (.ok (), written)

/-- A writable path reads back what is written, and no other path is written. -/
theorem writeWithParents_iff (fs : FileSystem) (path : PathBuf) (bytes : List UInt8) :
    (fs.Writable path → ∃ written, fs.writeWithParents path bytes = (.ok (), written) ∧
        written.read path = .ok bytes) ∧
      (¬ fs.Writable path → ∃ errno, (fs.writeWithParents path bytes).1 = .error errno) := by
  unfold writeWithParents
  constructor
  · rintro ⟨made, place, parents, aimed, solid⟩
    obtain ⟨written, wrote⟩ := (made.writeFile_iff path bytes).mpr ⟨place, aimed, solid⟩
    rw [parents]
    simp only [wrote]
    exact ⟨written, rfl, made.read_written written path bytes wrote⟩
  · intro blocked
    cases parents : fs.makeParents path with
    | mk outcome made =>
        cases outcome with
        | error errno => exact ⟨errno, rfl⟩
        | ok _ =>
            cases wrote : made.writeFile path bytes with
            | error errno => exact ⟨errno, by simp only [wrote]⟩
            | ok written =>
                obtain ⟨place, aimed, solid⟩ := (made.writeFile_iff path bytes).mp ⟨written, wrote⟩
                exact absurd ⟨made, place, parents, aimed, solid⟩ blocked

/-- A path that exists has an entry, and what it leads to stands there unless the entry is a link. -/
theorem entry_of_metadata (fs : FileSystem) (path : PathBuf) (node : Node)
    (seen : fs.metadata path = .ok node) : ∃ entry, fs.entryOf path = .ok entry ∧
      (fs.lookup entry = some node ∨ ∃ target, fs.lookup entry = some (.symlink target)) := by
  unfold metadata at seen
  cases resolved : fs.canonicalize path with
  | error _ => rw [resolved] at seen; cases seen
  | ok real =>
      rw [resolved] at seen
      have present : fs.lookup real = some node := by
        simp only [Except.bind] at seen
        cases present : fs.lookup real with
        | none => rw [present] at seen; cases seen
        | some other => rw [present] at seen; rw [Except.ok.inj seen]
      by_cases followed : path.ending ≠ .plain ∨ path.fileName = none
      · exact ⟨real, by rw [entryOf_followed fs path followed, resolved], .inl present⟩
      · rw [not_or, not_not] at followed
        obtain ⟨name, named⟩ := Option.ne_none_iff_exists'.mp followed.2
        obtain ⟨entry, other, stands, held, own⟩ :=
          canonicalize_entry fs path name real followed.1 named resolved
        refine ⟨entry, stands, ?_⟩
        cases other with
        | symlink target => exact .inr ⟨target, held⟩
        | dir =>
            left
            rw [← own (by simp)]
            exact present
        | file bytes =>
            left
            rw [← own (by simp)]
            exact present

/-- `create_dir_all` leaves a directory that already stands alone. -/
theorem createDirAll_of_isDir (fs : FileSystem) (path : PathBuf) (plain : path.ending = .plain)
    (standing : fs.isDir path = true) : fs.createDirAll path = (.ok (), fs) := by
  rcases path with ⟨anchor, segments, ending⟩
  obtain rfl : ending = .plain := plain
  rw [createDirAll]
  rcases List.eq_nil_or_concat segments with rfl | ⟨before, last, rfl⟩
  · simp [createDirAllFrom, standing]
  · obtain ⟨entry, stands, held⟩ := fs.entry_of_metadata _ .dir (by
      unfold isDir at standing
      split at standing
      · assumption
      · cases standing)
    have spelled : (PathBuf.mk anchor (before.concat last) .plain) =
        ⟨anchor, (last :: before.reverse).reverse, .plain⟩ := by simp
    have taken : fs.createDir ⟨anchor, (last :: before.reverse).reverse, .plain⟩ =
        .error .alreadyExists := by
      rw [← spelled, createDir, stands]
      rcases held with dir | ⟨target, link⟩
      · simp [Except.bind, dir]
      · simp [Except.bind, link]
    rw [spelled] at standing
    simp only [List.concat_eq_append, List.reverse_append, List.reverse_singleton,
      List.singleton_append, createDirAllFrom, taken, standing, if_true]

/-- A path in a directory that stands needs no new parents. -/
theorem makeParents_container (fs : FileSystem) (path : PathBuf) (above : Location)
    (held : fs.container path = .ok above) : fs.makeParents path = (.ok (), fs) := by
  unfold makeParents
  rcases path.parent_eq_none_or with orphan | parent
  · rw [orphan]
  · rw [parent]
    by_cases deep : path.components.dropLast = []
    · rw [← PathBuf.above_components] at deep
      have bare := path.above.bare_of_components deep
      simp [createDirAll, bare.1, bare.2, createDirAllFrom]
    · refine fs.createDirAll_of_isDir _ path.above_ending ?_
      exact (fs.isDir_iff _).mpr ⟨above, canonicalize_parent fs path above held deep,
        container_dir fs path above held⟩

/-- A file is written at its entry where a file stands or nothing does. -/
theorem writeWithParents_of_entry (fs : FileSystem) (path : PathBuf) (entry : Location)
    (bytes : List UInt8) (stands : fs.entryOf path = .ok entry) (solid : fs.lookup entry ≠ some .dir)
    (unlinked : ∀ target, fs.lookup entry ≠ some (.symlink target)) :
    fs.Writable path ∧ fs.writeWithParents path bytes = (.ok (), fs.put entry (.file bytes)) := by
  obtain ⟨plain, name, named⟩ := named_of_plain fs path entry stands solid
  have aimed := createTarget_of_entry fs path entry stands unlinked
  rw [entryOf_named fs path name plain named] at stands
  cases held : fs.container path with
  | error _ => rw [held] at stands; cases stands
  | ok above =>
      have parents := fs.makeParents_container path above held
      refine ⟨⟨fs, entry, parents, aimed, solid⟩, ?_⟩
      have wrote : fs.writeFile path bytes = .ok (fs.put entry (.file bytes)) := by
        rw [writeFile, aimed]
        simp only [Except.bind]
      rw [writeWithParents, parents]
      simp only [wrote]

end Posix.FileSystem
