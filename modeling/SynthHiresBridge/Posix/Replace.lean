import SynthHiresBridge.Posix.MakeDir

namespace Posix.FileSystem

/-- The container of a path depends on the components before its last one. -/
theorem container_congr (fs : FileSystem) {first second : PathBuf}
    (same : first.components.dropLast = second.components.dropLast) :
    fs.container first = fs.container second := by
  rw [container, container, same]

/-- A replaced path differs from before in its entry alone. -/
structure Replaced (before after : FileSystem) (path : PathBuf) (entry : Location)
    (node : Node) : Prop where
  stands : before.entryOf path = .ok entry
  free : before.lookup entry ≠ some .dir
  lookup : ∀ location, after.lookup location =
    if location = entry then some node else before.lookup location
  cwd : after.cwd = before.cwd

/-- A rename succeeds over an entry that is no directory. -/
theorem rename_ok (fs renamed : FileSystem) (source target : PathBuf)
    (done : fs.rename source target = .ok renamed) :
    ∃ old node new, fs.entryOf source = .ok old ∧ fs.lookup old = some node ∧ node ≠ .dir ∧
      fs.entryOf target = .ok new ∧ fs.lookup new ≠ some .dir ∧
      renamed = if old = new then fs else (fs.put new node).removeTree old := by
  unfold rename at done
  cases stands : fs.entryOf source with
  | error _ => rw [stands] at done; cases done
  | ok old =>
      rw [stands] at done
      simp only [Except.bind] at done
      cases present : fs.lookup old with
      | none => rw [present] at done; cases done
      | some node =>
          rw [present] at done
          have moves : node ≠ .dir ∧ ((fs.entryOf target).bind fun new =>
              if fs.lookup new = some .dir then Except.error Errno.isADirectory
              else if old = new then .ok fs
              else .ok ((fs.put new node).removeTree old)) = .ok renamed := by
            cases node with
            | dir => cases done
            | file bytes => exact ⟨by simp, done⟩
            | symlink target => exact ⟨by simp, done⟩
          obtain ⟨solid, done⟩ := moves
          cases lands : fs.entryOf target with
          | error _ => rw [lands] at done; cases done
          | ok new =>
              rw [lands] at done
              simp only [Except.bind] at done
              refine ⟨old, node, new, rfl, present, solid, rfl, ?_⟩
              by_cases dir : fs.lookup new = some .dir
              · rw [if_pos dir] at done
                cases done
              · rw [if_neg dir] at done
                refine ⟨dir, ?_⟩
                by_cases same : old = new
                · rw [if_pos same] at done ⊢
                  exact (Except.ok.inj done).symm
                · rw [if_neg same] at done ⊢
                  exact (Except.ok.inj done).symm

/-- Moving an entry changes its old and its new place. -/
theorem lookup_moved (fs : FileSystem) (old new : Location) (node : Node) (solid : node ≠ .dir)
    (nested : old ≠ []) (fits : fs.Puttable new) (present : fs.lookup old = some node)
    (location : Location) :
    (if old = new then fs else (fs.put new node).removeTree old).lookup location =
      if location = new then some node else if location = old then none
      else fs.lookup location := by
  by_cases same : old = new
  · subst same
    rw [if_pos rfl]
    by_cases own : location = old
    · rw [if_pos own, own, present]
    · rw [if_neg own, if_neg own]
  · rw [if_neg same, lookup_removeTree_plain _ old location nested, lookup_put fs new node fits]
    · by_cases own : location = old
      · rw [if_pos own, if_neg (own ▸ same), if_pos own]
      · simp only [own, if_false]
    · rw [lookup_put fs new node fits, if_neg same, present]
      simpa using solid

/-- A new file stands at its path. -/
theorem created_stands (fs created : FileSystem) (path : PathBuf) (bytes : List UInt8)
    (made : fs.createNew path bytes = .ok created) :
    ∃ entry, fs.lookup entry = none ∧ created.entryOf path = .ok entry ∧
      (∀ location, created.lookup location =
        if location = entry then some (.file bytes) else fs.lookup location) ∧
      created.symlinkMetadata path = .ok (.file bytes) := by
  obtain ⟨entry, stands, missing, fits, rfl⟩ := createNew_ok fs created path bytes made
  have still := entryOf_mono (put_extends fs entry (.file bytes) missing fits).covers
    (put_cwd fs entry _) path entry stands
  have lookup := lookup_put fs entry (.file bytes) fits
  refine ⟨entry, missing, still, lookup, ?_⟩
  rw [symlinkMetadata, still]
  simp [Except.bind, lookup]

/-- A file created beside a path and renamed over it changes the entry of the path alone. -/
theorem replaced_of_createNew (fs created renamed : FileSystem) (path : PathBuf) (suffix : String)
    (bytes : List UInt8) (made : fs.createNew (path.withExtension suffix) bytes = .ok created)
    (moved : created.rename (path.withExtension suffix) path = .ok renamed) :
    ∃ entry, Replaced fs renamed path entry (.file bytes) := by
  obtain ⟨beside, tmp_stands, missing, fits, rfl⟩ := createNew_ok fs created _ bytes made
  obtain ⟨old, node, new, source, present, solid, target, free, rfl⟩ :=
    rename_ok _ renamed _ path moved
  have more := put_extends fs beside (.file bytes) missing fits
  have cwd := put_cwd fs beside (.file bytes)
  have own : old = beside := by
    have still := entryOf_mono more.covers cwd _ beside tmp_stands
    rw [source] at still
    exact Except.ok.inj still
  subst own
  obtain ⟨tmp_plain, tmp_name, tmp_named⟩ := named_of_plain fs _ old tmp_stands
    (by simp [missing])
  obtain ⟨plain, name, named⟩ := named_of_plain _ path new target free
  have siblings := (path.withExtension_named suffix name named).2.2
  have stands : fs.entryOf path = .ok new := by
    rw [entryOf_named fs _ tmp_name tmp_plain tmp_named, container_congr fs siblings] at tmp_stands
    rw [entryOf_named _ path name plain named] at target ⊢
    cases held : fs.container path with
    | error _ => rw [held] at tmp_stands; cases tmp_stands
    | ok above =>
        rw [container_mono more.covers cwd path above held] at target
        exact target
  have created_lookup := lookup_put fs old (.file bytes) fits
  have kind : node = .file bytes := by
    rw [created_lookup, if_pos rfl] at present
    exact (Option.some.inj present).symm
  subst kind
  refine ⟨new, stands, ?_, ?_, ?_⟩
  · intro dir
    by_cases same : new = old
    · rw [same, missing] at dir
      cases dir
    · rw [created_lookup, if_neg same] at free
      exact free dir
  · intro location
    rw [lookup_moved _ old new _ solid fits.1 (puttable_of_entryOf _ path new target free) present]
    by_cases atop : location = new
    · rw [if_pos atop, if_pos atop]
    · rw [if_neg atop, if_neg atop, created_lookup]
      by_cases beside : location = old
      · rw [if_pos beside, beside, missing]
      · rw [if_neg beside, if_neg beside]
  · split <;> simp

/-- Creating follows a path without a plain last name as reading does. -/
theorem createTarget_followed (fs : FileSystem) (path : PathBuf)
    (followed : path.ending ≠ .plain ∨ path.fileName = none) :
    fs.createTarget path = fs.canonicalize path := by
  unfold createTarget canonicalize
  by_cases named : path.components = []
  · rw [if_pos named, if_pos named]
  · rw [if_neg named, if_neg named]
    obtain ⟨before, last, same, marker⟩ := osComponents_followed path named followed
    rw [same, walk_append fs true _ _ _ [last] (by simp),
      walk_append fs false _ _ _ [last] (by simp)]
    congr 2
    funext reached
    cases last with
    | normal name => exact absurd rfl (marker name)
    | rootDir => simp
    | curDir => simp
    | parentDir => simp

/-- Creating stays at the entry of the path unless a link stands there. -/
theorem createTarget_unlinked (fs : FileSystem) (path : PathBuf)
    (unlinked : ∀ entry target, fs.entryOf path = .ok entry →
      fs.lookup entry ≠ some (.symlink target)) :
    fs.createTarget path = fs.entryOf path := by
  by_cases followed : path.ending ≠ .plain ∨ path.fileName = none
  · rw [createTarget_followed fs path followed, entryOf_followed fs path followed]
  rw [not_or, not_not] at followed
  have plain := followed.1
  obtain ⟨name, named⟩ := Option.ne_none_iff_exists'.mp followed.2
  have shape := PathBuf.components_of_fileName path name named
  have present : path.components ≠ [] := by rw [shape]; simp
  rw [entryOf_named fs path name plain named] at unlinked ⊢
  rw [createTarget, if_neg present, PathBuf.osComponents_plain path plain, shape,
    walk_append fs true _ _ _ [.normal name] (by simp)]
  unfold container at unlinked ⊢
  cases walked : fs.walk false maxSymlinks fs.cwd path.components.dropLast with
  | error _ => rfl
  | ok reached =>
      rw [walked] at unlinked
      simp only [Except.bind, walk_normal] at unlinked ⊢
      cases entered : fs.enter reached.1 with
      | error _ => rfl
      | ok _ =>
          have solid := fun target => unlinked (reached.1 ++ [name]) target (by rw [entered]; rfl)
          cases present : fs.lookup (reached.1 ++ [name]) with
          | none => simp [Except.map]
          | some node =>
              cases node with
              | symlink target => exact absurd present (solid target)
              | dir => simp [Except.map]
              | file _ => simp [Except.map]

/-- Creating lands on an entry that is no link. -/
theorem createTarget_of_entry (fs : FileSystem) (path : PathBuf) (entry : Location)
    (stands : fs.entryOf path = .ok entry)
    (unlinked : ∀ target, fs.lookup entry ≠ some (.symlink target)) :
    fs.createTarget path = .ok entry := by
  rw [← stands]
  refine createTarget_unlinked fs path fun other target lands => ?_
  obtain rfl : entry = other := Except.ok.inj (stands.symm.trans lands)
  exact unlinked target

/-- Writing under a free name creates it. -/
theorem createNew_of_writeFile (fs written : FileSystem) (path : PathBuf) (bytes : List UInt8)
    (free : ∀ entry, fs.entryOf path = .ok entry → fs.lookup entry = none)
    (done : fs.writeFile path bytes = .ok written) : fs.createNew path bytes = .ok written := by
  have same : fs.createTarget path = fs.entryOf path :=
    createTarget_unlinked fs path fun entry target stands => by simp [free entry stands]
  unfold writeFile at done
  unfold createNew
  rw [same] at done
  cases stands : fs.entryOf path with
  | error _ => rw [stands] at done; cases done
  | ok entry =>
      rw [stands] at done
      simp only [Except.bind, free entry stands] at done ⊢
      exact done

/-- A file can be created under a free name in a directory. -/
theorem writeFile_of_free (fs : FileSystem) (path : PathBuf) (entry : Location)
    (bytes : List UInt8) (stands : fs.entryOf path = .ok entry)
    (missing : fs.lookup entry = none) :
    fs.writeFile path bytes = .ok (fs.put entry (.file bytes)) := by
  rw [writeFile, createTarget_of_entry fs path entry stands (by simp [missing])]
  simp [Except.bind, missing]

/-- A write that succeeds puts a file where no directory and no link stands. -/
theorem writeFile_ok (fs written : FileSystem) (path : PathBuf) (bytes : List UInt8)
    (done : fs.writeFile path bytes = .ok written) :
    ∃ place, fs.createTarget path = .ok place ∧ fs.Puttable place ∧
      (∀ target, fs.lookup place ≠ some (.symlink target)) ∧
      written = fs.put place (.file bytes) := by
  unfold writeFile at done
  cases aimed : fs.createTarget path with
  | error _ => rw [aimed] at done; cases done
  | ok place =>
      have lands : fs.Lands place := by
        unfold createTarget at aimed
        split at aimed
        · cases aimed
        · rename_i named
          cases walked : fs.walk true maxSymlinks fs.cwd path.osComponents with
          | error _ => rw [walked] at aimed; cases aimed
          | ok reached =>
              rw [walked] at aimed
              obtain rfl : reached.1 = place := Except.ok.inj aimed
              exact fs.walk_lands _ _ _ reached walked
                fun empty => absurd empty (osComponents_ne_nil path named)
      rw [aimed] at done
      simp only [Except.bind] at done
      split at done
      · cases done
      · rename_i solid
        exact ⟨place, rfl, lands.2.resolve_left solid, lands.1, (Except.ok.inj done).symm⟩

/-- Writing a file keeps every directory and every link. -/
theorem put_covers (fs : FileSystem) (place : Location) (bytes : List UInt8)
    (fits : fs.Puttable place) (unlinked : ∀ target, fs.lookup place ≠ some (.symlink target)) :
    (fs.put place (.file bytes)).Covers fs := by
  intro location node present
  rw [lookup_put fs place _ fits]
  by_cases own : location = place
  · rw [if_pos own]
    rw [own] at present
    cases node with
    | dir => exact absurd present fits.2.2
    | symlink target => exact absurd present (unlinked target)
    | file old => exact .inr ⟨old, bytes, rfl, rfl⟩
  · rw [if_neg own]
    exact .inl present

end Posix.FileSystem
