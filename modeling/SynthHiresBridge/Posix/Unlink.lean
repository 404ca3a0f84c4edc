import SynthHiresBridge.Posix.Readback

namespace Posix.FileSystem

/-- Removing an entry keeps every other path that still resolves where it was. -/
theorem extends_removeTree (fs : FileSystem) (entry : Location) (nested : entry ≠ []) :
    fs.Extends (fs.removeTree entry) := by
  intro location node present
  rw [lookup_removeTree fs entry location nested] at present
  split at present
  · cases present
  · exact present

/-- A path does not resolve after its entry is removed. -/
theorem canonicalize_removed (fs : FileSystem) (path : PathBuf) (entry : Location)
    (stands : fs.entryOf path = .ok entry) (nested : entry ≠ []) :
    ∃ reason, (fs.removeTree entry).canonicalize path = .error reason := by
  have more := (fs.extends_removeTree entry nested).covers
  have cwd : fs.cwd = (fs.removeTree entry).cwd := by simp
  have gone : (fs.removeTree entry).lookup entry = none := by
    rw [lookup_removeTree fs entry entry nested, if_pos (by simp)]
  cases resolved : (fs.removeTree entry).canonicalize path with
  | error reason => exact ⟨reason, rfl⟩
  | ok real =>
      exfalso
      by_cases followed : path.ending ≠ .plain ∨ path.fileName = none
      · have before := canonicalize_mono more cwd path real resolved
        rw [entryOf_followed fs path followed, before] at stands
        obtain rfl : real = entry := Except.ok.inj stands
        have present := canonicalize_exists _ path real resolved
        simp [gone] at present
      · rw [not_or, not_not] at followed
        obtain ⟨name, named⟩ := Option.ne_none_iff_exists'.mp followed.2
        obtain ⟨place, node, after, present, -⟩ :=
          canonicalize_entry _ path name real followed.1 named resolved
        have before := entryOf_mono more cwd path place after
        rw [stands] at before
        obtain rfl : entry = place := Except.ok.inj before
        rw [gone] at present
        cases present

theorem pathExists_removed (fs : FileSystem) (path : PathBuf) (entry : Location)
    (stands : fs.entryOf path = .ok entry) (nested : entry ≠ []) :
    (fs.removeTree entry).pathExists path = false := by
  obtain ⟨reason, failed⟩ := fs.canonicalize_removed path entry stands nested
  simp [pathExists, metadata, failed, Except.bind]

/-- A path can be removed unless it leads to a directory that it does not name. -/
def Removable (fs : FileSystem) (path : PathBuf) : Prop :=
  fs.isDir path = true → ∃ entry, fs.entryOf path = .ok entry ∧
    (fs.lookup entry = some .dir → fs.ownName path entry = true ∧ entry ≠ [])

/-- A path that exists and is no directory is removed with its entry. -/
theorem removeFile_of_exists (fs : FileSystem) (path : PathBuf)
    (present : fs.pathExists path = true) (plain : fs.isDir path = false) :
    ∃ entry, fs.entryOf path = .ok entry ∧ fs.lookup entry ≠ some .dir ∧
      fs.removeFile path = .ok (fs.removeTree entry) := by
  unfold pathExists at present
  cases seen : fs.metadata path with
  | error _ => rw [seen] at present; cases present
  | ok node =>
      have solid : node ≠ .dir := by
        rintro rfl
        simp [isDir, seen] at plain
      obtain ⟨entry, stands, held⟩ := fs.entry_of_metadata path node seen
      have other : ∃ other, fs.lookup entry = some other ∧ other ≠ .dir := by
        rcases held with same | ⟨target, link⟩
        · exact ⟨node, same, solid⟩
        · exact ⟨_, link, by simp⟩
      obtain ⟨other, held, apart⟩ := other
      refine ⟨entry, stands, by simpa [held] using apart, ?_⟩
      rw [removeFile, stands]
      simp only [Except.bind, held]

theorem metadata_of_isDir (fs : FileSystem) (path : PathBuf) (dir : fs.isDir path = true) :
    fs.metadata path = .ok .dir := by
  unfold isDir at dir
  split at dir
  · assumption
  · cases dir

theorem pathExists_of_isDir (fs : FileSystem) (path : PathBuf) (dir : fs.isDir path = true) :
    fs.pathExists path = true := by
  rw [pathExists, metadata_of_isDir fs path dir]

/-- A directory under a path that does not name it is emptied, and its removal fails. -/
theorem removeDirAll_stuck (fs : FileSystem) (path : PathBuf) (dir : fs.isDir path = true)
    (stuck : ¬ fs.Removable path) : ∃ entry reason, fs.entryOf path = .ok entry ∧
      fs.lookup entry = some .dir ∧
      fs.removeDirAll path = (.error reason, fs.removeChildren entry) := by
  have seen : fs.metadata path = .ok .dir := metadata_of_isDir fs path dir
  obtain ⟨entry, stands, held⟩ := fs.entry_of_metadata path .dir seen
  rcases held with same | ⟨target, link⟩
  · have loose : (fs.ownName path entry && entry != []) = false := by
      by_contra named
      simp only [Bool.not_eq_false, Bool.and_eq_true, bne_iff_ne] at named
      exact stuck fun _ => ⟨entry, stands, fun _ => named⟩
    refine ⟨entry, .invalidInput, stands, same, ?_⟩
    simp [removeDirAll, stands, same, loose]
  · exact absurd (fun _ => ⟨entry, stands, fun dir => by simp [link] at dir⟩) stuck

/-- A directory is removed when its path is removable, and then the path leads nowhere. -/
theorem removeDirAll_iff (fs : FileSystem) (path : PathBuf) (dir : fs.isDir path = true) :
    (fs.Removable path → ∃ entry, fs.entryOf path = .ok entry ∧ entry ≠ [] ∧
        fs.removeDirAll path = (.ok (), fs.removeTree entry)) ∧
      (¬ fs.Removable path → ∃ reason, (fs.removeDirAll path).1 = .error reason) := by
  constructor
  · intro removable
    obtain ⟨entry, stands, held⟩ := fs.entry_of_metadata path .dir (metadata_of_isDir fs path dir)
    rw [removeDirAll, stands]
    refine ⟨entry, rfl, ?_⟩
    rcases held with same | ⟨target, link⟩
    · obtain ⟨other, own, named⟩ := removable dir
      obtain rfl : entry = other := Except.ok.inj (stands.symm.trans own)
      obtain ⟨named, nested⟩ := named same
      exact ⟨nested, by simp [same, named, nested]⟩
    · refine ⟨?_, by simp [link]⟩
      rintro rfl
      simp at link
  · intro stuck
    obtain ⟨_, reason, -, -, ran⟩ := removeDirAll_stuck fs path dir stuck
    exact ⟨reason, by rw [ran]⟩

/-- A cleared path led nowhere before, or it has lost its entry. -/
def Cleared (fs : FileSystem) (path : PathBuf) (cleared : FileSystem) : Prop :=
  (fs.pathExists path = false ∧ cleared = fs) ∨
    ∃ entry, fs.entryOf path = .ok entry ∧ entry ≠ [] ∧ cleared = fs.removeTree entry

theorem Cleared.gone {fs cleared : FileSystem} {path : PathBuf} (done : fs.Cleared path cleared) :
    cleared.pathExists path = false := by
  rcases done with ⟨absent, rfl⟩ | ⟨entry, stands, nested, rfl⟩
  · exact absent
  · exact fs.pathExists_removed path entry stands nested

/-- A change keeps the ways to directories when it keeps all directories and links. -/
def KeepsWays (later earlier : FileSystem) : Prop :=
  ∀ location node, earlier.lookup location = some node → (∀ bytes, node ≠ .file bytes) →
    later.lookup location = some node

/-- Only the first component of a path is the root. -/
def Headed (components : List Component) : Prop := .rootDir ∉ components.tail

theorem Headed.tail {first : Component} {rest : List Component} (headed : Headed (first :: rest)) :
    Headed rest := by
  intro later
  exact headed (List.mem_of_mem_tail later)

theorem Headed.append {first second : List Component} (headed : Headed first)
    (clean : .rootDir ∉ second) : Headed (first ++ second) := by
  cases first with
  | nil => exact fun later => clean (List.mem_of_mem_tail later)
  | cons component rest =>
      intro later
      rcases List.mem_append.mp later with front | back
      · exact headed front
      · exact clean back

theorem headed_osComponents (path : PathBuf) : Headed path.osComponents := by
  have plain : ∀ segments : List Segment, .rootDir ∉ segments.map Segment.component := by
    intro segments member
    obtain ⟨segment, -, same⟩ := List.mem_map.mp member
    cases segment <;> cases same
  obtain ⟨rest, shape, clean⟩ : ∃ rest, path.osComponents = path.anchor.components ++ rest ∧
      .rootDir ∉ rest := by
    unfold PathBuf.osComponents PathBuf.components
    split
    · exact ⟨_, rfl, plain path.segments⟩
    · exact ⟨path.segments.map Segment.component ++ [.curDir], by simp, by simp [plain]⟩
  rw [Headed, shape]
  cases path.anchor with
  | root => simpa [Anchor.components] using clean
  | current => simpa [Anchor.components] using clean
  | bare => exact fun later => clean (List.mem_of_mem_tail (by simpa [Anchor.components] using later))

/-- A walk to a directory needs directories and links only. -/
theorem walk_ways {later earlier : FileSystem} (keeps : later.KeepsWays earlier) (left : Nat)
    (place : Location) (components : List Component) (reached : Location × Nat)
    (headed : Headed components)
    (walked : earlier.walk false left place components = .ok reached)
    (standing : earlier.lookup reached.1 = some .dir) :
    later.walk false left place components = .ok reached := by
  have walks := walks_of_walk earlier _ _ _ _ _ walked
  clear walked
  apply Walks.walk
  induction walks with
  | done left place => exact .done left place
  | rootDir _ ih => exact .rootDir (ih headed.tail standing)
  | curDir entered _ ih => exact .curDir (keeps _ _ entered (by simp)) (ih headed.tail standing)
  | parentDir entered _ ih =>
      exact .parentDir (keeps _ _ entered (by simp)) (ih headed.tail standing)
  | created creates _ _ => cases creates
  | linked entered link _ ih =>
      exact .linked (keeps _ _ entered (by simp)) (keeps _ _ link (by simp))
        (ih ((headed_osComponents _).append headed) standing)
  | passed entered present solid walks ih =>
      refine .passed (keeps _ _ entered (by simp)) (keeps _ _ present ?_) solid
        (ih headed.tail standing)
      -- A file ends its walk, and the walk ends at a directory.
      rintro bytes rfl
      cases walks with
      | done _ _ =>
          rw [present] at standing
          cases standing
      | rootDir _ => simp [Headed] at headed
      | curDir held _ | parentDir held _ | created _ held _ | linked held _ _ | passed held _ _ _ =>
          rw [present] at held
          cases held

/-- A change keeps the walks that end at a directory. -/
def KeepsWalks (later earlier : FileSystem) : Prop :=
  ∀ left place components reached, Headed components →
    earlier.walk false left place components = .ok reached →
    earlier.lookup reached.1 = some .dir →
    later.walk false left place components = .ok reached ∧ later.lookup reached.1 = some .dir

theorem KeepsWays.walks {later earlier : FileSystem} (keeps : later.KeepsWays earlier) :
    later.KeepsWalks earlier := by
  intro left place components reached headed walked standing
  exact ⟨walk_ways keeps left place components reached headed walked standing,
    keeps _ _ standing (by simp)⟩

/-- A named entry stays in its container when the walks to directories stay. -/
theorem entryOf_walks {later earlier : FileSystem} (keeps : later.KeepsWalks earlier)
    (cwd : later.cwd = earlier.cwd) (path : PathBuf) (entry : Location)
    (stands : earlier.entryOf path = .ok entry) (solid : earlier.lookup entry ≠ some .dir) :
    later.entryOf path = .ok entry := by
  obtain ⟨plain, name, named⟩ := named_of_plain earlier path entry stands solid
  rw [entryOf_named _ path name plain named] at stands ⊢
  cases held : earlier.container path with
  | error _ => rw [held] at stands; cases stands
  | ok above =>
      rw [held] at stands
      have standing := container_dir earlier path above held
      unfold container at held ⊢
      cases walked : earlier.walk false maxSymlinks earlier.cwd path.components.dropLast with
      | error _ => rw [walked] at held; cases held
      | ok reached =>
          rw [walked] at held
          have own : reached.1 = above := by
            simp only [Except.bind] at held
            cases entered : earlier.enter reached.1 with
            | error _ => rw [entered] at held; cases held
            | ok _ => rw [entered] at held; simpa [Except.map] using held
          subst own
          have headed : Headed path.components.dropLast := by
            intro root
            refine headed_osComponents path ?_
            rw [PathBuf.osComponents_plain path plain]
            exact (List.dropLast_sublist _).tail.subset root
          obtain ⟨again, still⟩ := keeps _ _ _ reached headed walked standing
          have entered : later.enter reached.1 = .ok () := (enter_ok_iff later reached.1).mpr still
          rw [cwd, again]
          simp only [Except.bind, entered]
          exact stands

/-- A named entry stays in its container when directories and links stay. -/
theorem entryOf_ways {later earlier : FileSystem} (keeps : later.KeepsWays earlier)
    (cwd : later.cwd = earlier.cwd) (path : PathBuf) (entry : Location)
    (stands : earlier.entryOf path = .ok entry) (solid : earlier.lookup entry ≠ some .dir) :
    later.entryOf path = .ok entry :=
  entryOf_walks keeps.walks cwd path entry stands solid

theorem keepsWays_removeTree (fs : FileSystem) (entry : Location) (bytes : List UInt8)
    (file : fs.lookup entry = some (.file bytes)) : (fs.removeTree entry).KeepsWays fs := by
  have nested : entry ≠ [] := by
    rintro rfl
    simp at file
  intro location node present other
  rw [lookup_removeTree_plain fs entry location nested (by simp [file]), if_neg]
  · exact present
  · rintro rfl
    rw [file] at present
    exact other bytes (Option.some.inj present).symm

/-- Walks of the same components end at one place, whatever their budgets. -/
theorem Walks.unique {fs : FileSystem} {left other : Nat} {place : Location}
    {components : List Component} {reached ended : Location × Nat}
    (walks : Walks fs false left place components reached)
    (again : Walks fs false other place components ended) : reached.1 = ended.1 := by
  induction walks generalizing other with
  | done left place => cases again; rfl
  | rootDir _ ih => cases again with | rootDir more => exact ih more
  | curDir _ _ ih => cases again with | curDir _ more => exact ih more
  | parentDir _ _ ih => cases again with | parentDir _ more => exact ih more
  | created creates _ _ => cases creates
  | linked _ link _ ih =>
      cases again with
      | created creates _ _ => cases creates
      | linked _ same more =>
          rw [link] at same
          cases same
          exact ih more
      | passed _ present solid _ =>
          rw [link] at present
          cases present
          exact absurd rfl (solid _)
  | passed _ present solid _ ih =>
      cases again with
      | created creates _ _ => cases creates
      | linked _ link _ =>
          rw [present] at link
          cases link
          exact absurd rfl (solid _)
      | passed _ _ _ more => exact ih more

/-- A walk that comes to a file ends there. -/
theorem Walks.ends {fs : FileSystem} {left : Nat} {place : Location} {components : List Component}
    {reached : Location × Nat} {bytes : List UInt8}
    (walks : Walks fs false left place components reached)
    (file : fs.lookup place = some (.file bytes)) (clean : .rootDir ∉ components) :
    reached.1 = place := by
  cases walks with
  | done left place => rfl
  | rootDir _ => exact absurd (List.mem_cons_self ..) clean
  | curDir held _ | parentDir held _ | created _ held _ | linked held _ _ | passed held _ _ _ =>
      rw [file] at held
      cases held

/-- A walk of two parts splits where the first part ends. -/
theorem Walks.split {fs : FileSystem} {left : Nat} {place : Location}
    {first second : List Component} {reached : Location × Nat}
    (walks : Walks fs false left place (first ++ second) reached) :
    ∃ middle, Walks fs false left place first middle ∧
      Walks fs false middle.2 middle.1 second reached := by
  by_cases more : second = []
  · subst more
    rw [List.append_nil] at walks
    exact ⟨reached, walks, .done _ _⟩
  · have walked := walks.walk
    rw [walk_append fs false left place first second more] at walked
    cases front : fs.walk false left place first with
    | error _ => rw [front] at walked; cases walked
    | ok middle =>
        rw [front] at walked
        exact ⟨middle, walks_of_walk fs _ _ _ _ _ front, walks_of_walk fs _ _ _ _ _ walked⟩

/-- Entries that lead to files are on no way to a directory. -/
theorem keepsWalks_of_entries {later earlier : FileSystem} {spot : Location → Prop}
    (others : ∀ location, ¬spot location → later.lookup location = earlier.lookup location)
    (free : ∀ location, spot location → earlier.lookup location ≠ some .dir)
    (leads : ∀ above name target, spot (above ++ [name]) →
      earlier.lookup (above ++ [name]) = some (.symlink target) →
        ∃ left reached bytes, Walks earlier false left above target.osComponents reached ∧
          earlier.lookup reached.1 = some (.file bytes)) : later.KeepsWalks earlier := by
  have dirs : ∀ location, earlier.lookup location = some .dir →
      later.lookup location = some .dir := by
    intro location standing
    rw [others, standing]
    exact fun own => free location own standing
  intro left place components reached headed walked standing
  refine ⟨?_, dirs _ standing⟩
  have walks := walks_of_walk earlier _ _ _ _ _ walked
  clear walked
  apply Walks.walk
  induction walks with
  | done left place => exact .done left place
  | rootDir _ ih => exact .rootDir (ih headed.tail standing)
  | curDir entered _ ih => exact .curDir (dirs _ entered) (ih headed.tail standing)
  | parentDir entered _ ih => exact .parentDir (dirs _ entered) (ih headed.tail standing)
  | created creates _ _ => cases creates
  | @linked left place here target rest reached entered link walks ih =>
      by_cases own : spot (place ++ [here])
      · obtain ⟨budget, ended, bytes, leading, file⟩ := leads place here target own link
        obtain ⟨middle, front, back⟩ := walks.split
        have same := front.unique leading
        rw [← same] at file
        have last := back.ends file headed
        rw [last, file] at standing
        cases standing
      · refine .linked (dirs _ entered) ?_ (ih ((headed_osComponents _).append headed) standing)
        rw [others _ own, link]
  | @passed left place here node rest reached entered present solid walks ih =>
      by_cases own : spot (place ++ [here])
      · cases node with
        | dir => exact absurd present (free _ own)
        | symlink target => exact absurd rfl (solid target)
        | file bytes =>
            have last := walks.ends present headed
            rw [last, present] at standing
            cases standing
      · refine .passed (dirs _ entered) ?_ solid (ih headed.tail standing)
        rw [others _ own, present]

/-- An entry that leads to a file is on no way to a directory. -/
theorem keepsWalks_of_entry {later earlier : FileSystem} {above : Location} {name : String}
    (others : ∀ location, location ≠ above ++ [name] →
      later.lookup location = earlier.lookup location)
    (free : earlier.lookup (above ++ [name]) ≠ some .dir)
    (leads : ∀ target, earlier.lookup (above ++ [name]) = some (.symlink target) →
      ∃ left reached bytes, Walks earlier false left above target.osComponents reached ∧
        earlier.lookup reached.1 = some (.file bytes)) : later.KeepsWalks earlier := by
  refine keepsWalks_of_entries others ?_ ?_
  · rintro location rfl
    exact free
  · intro upper own target same link
    obtain ⟨rfl, -⟩ := List.append_inj' same rfl
    exact leads target (same ▸ link)

/-- A path that was read leads to a file, also where its entry is a link. -/
theorem leads_of_read {fs : FileSystem} {path : PathBuf} {above : Location} {name : String}
    {bytes : List UInt8} (reads : fs.read path = .ok bytes) (plain : path.ending = .plain)
    (named : path.fileName = some name) (held : fs.container path = .ok above)
    {target : PathBuf} (link : fs.lookup (above ++ [name]) = some (.symlink target)) :
    ∃ left reached bytes, Walks fs false left above target.osComponents reached ∧
      fs.lookup reached.1 = some (.file bytes) := by
  have seen := metadata_of_read fs path bytes reads
  rw [metadata, canonicalize_named fs path name plain named] at seen
  rw [container] at held
  cases walked : fs.walk false maxSymlinks fs.cwd path.components.dropLast with
  | error _ => rw [walked] at held; cases held
  | ok reached =>
      rw [walked] at held seen
      have own : reached.1 = above := by
        simp only [Except.bind] at held
        cases entered : fs.enter reached.1 with
        | error _ => rw [entered] at held; cases held
        | ok _ => rw [entered] at held; simpa [Except.map] using held
      subst own
      simp only [Except.bind] at seen
      cases last : fs.walk false reached.2 reached.1 [.normal name] with
      | error _ => rw [last] at seen; cases seen
      | ok final =>
          rw [last] at seen
          have walks := walks_of_walk fs _ _ _ _ _ last
          generalize reached.2 = left at walks
          cases walks with
          | created creates _ _ => cases creates
          | passed _ present solid _ =>
              rw [link] at present
              cases present
              exact absurd rfl (solid _)
          | linked _ same walks =>
              rw [link] at same
              cases same
              rw [List.append_nil] at walks
              refine ⟨_, final, bytes, walks, ?_⟩
              simp only [Except.map] at seen
              cases present : fs.lookup final.1 with
              | none => rw [present] at seen; cases seen
              | some node =>
                  rw [present] at seen
                  rw [Except.ok.inj seen]

/-- A path that was read and then replaced reads back its new bytes. -/
theorem read_replaced {before after : FileSystem} {path : PathBuf} {entry : Location}
    {old bytes : List UInt8} (reads : before.read path = .ok old)
    (replaced : Replaced before after path entry (.file bytes)) : after.read path = .ok bytes := by
  have own : after.lookup entry = some (.file bytes) := by rw [replaced.lookup, if_pos rfl]
  have stands : after.entryOf path = .ok entry := by
    obtain ⟨plain, name, named⟩ := named_of_plain before path entry replaced.stands replaced.free
    have inside := replaced.stands
    rw [entryOf_named _ path name plain named] at inside
    cases held : before.container path with
    | error _ => rw [held] at inside; cases inside
    | ok above =>
        rw [held] at inside
        obtain rfl : above ++ [name] = entry := Except.ok.inj inside
        refine entryOf_walks (keepsWalks_of_entry ?_ replaced.free ?_) replaced.cwd path _
          replaced.stands replaced.free
        · intro location other
          rw [replaced.lookup, if_neg other]
        · intro target link
          exact leads_of_read reads plain named held link
  rw [read, metadata, canonicalize_of_entry after path entry _ stands own (by simp)]
  simp [Except.bind, own]

/-- A file that is read stays when entries are only added. -/
theorem read_mono {later earlier : FileSystem} (more : later.Extends earlier)
    (cwd : later.cwd = earlier.cwd) {path : PathBuf} {bytes : List UInt8}
    (reads : earlier.read path = .ok bytes) : later.read path = .ok bytes := by
  have seen := metadata_of_read earlier path bytes reads
  rw [metadata] at seen
  cases resolved : earlier.canonicalize path with
  | error _ => rw [resolved] at seen; cases seen
  | ok real =>
      rw [resolved] at seen
      simp only [Except.bind] at seen
      cases present : earlier.lookup real with
      | none => rw [present] at seen; cases seen
      | some node =>
          rw [present] at seen
          obtain rfl := Except.ok.inj seen
          rw [read, metadata, canonicalize_mono more.covers cwd path real resolved]
          simp [Except.bind, more real _ present]

end Posix.FileSystem
