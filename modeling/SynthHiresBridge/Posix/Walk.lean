import SynthHiresBridge.Posix.FileSystem

namespace Posix

/-- These are the error kinds a path call reports. -/
inductive Errno where
  | notFound
  | notADirectory
  | isADirectory
  | alreadyExists
  | filesystemLoop
  | invalidInput
  deriving DecidableEq, Repr

/-- One path call follows at most this many links. -/
def maxSymlinks : Nat := 40

namespace FileSystem

/-- A location can be entered when a directory stands there. -/
def enter (fs : FileSystem) (location : Location) : Except Errno Unit :=
  match fs.lookup location with
  | some .dir => .ok ()
  | none => .error .notFound
  | some _ => .error .notADirectory

/-- A walk reads components from a directory and passes each link to its caller.
With `create` the last name may be missing. -/
def walkWith (fs : FileSystem) (create : Bool)
    (follow : Location → List Component → Except Errno (Location × Nat)) (left : Nat) :
    Location → List Component → Except Errno (Location × Nat)
  | place, [] => .ok (place, left)
  | _, .rootDir :: rest => walkWith fs create follow left [] rest
  | place, .curDir :: rest => (fs.enter place).bind fun _ =>
      walkWith fs create follow left place rest
  | place, .parentDir :: rest => (fs.enter place).bind fun _ =>
      walkWith fs create follow left place.dropLast rest
  | place, .normal name :: rest => (fs.enter place).bind fun _ =>
      match fs.lookup (place ++ [name]) with
      | none => if create && rest.isEmpty then .ok (place ++ [name], left) else .error .notFound
      | some (.symlink target) => follow place (target.osComponents ++ rest)
      | some _ => walkWith fs create follow left (place ++ [name]) rest

/-- A walk follows links until its budget is spent. It returns the place and the budget left. -/
def walk (fs : FileSystem) (create : Bool) :
    Nat → Location → List Component → Except Errno (Location × Nat)
  | 0 => fs.walkWith create (fun _ _ => .error .filesystemLoop) 0
  | left + 1 => fs.walkWith create (walk fs create left) (left + 1)

/-- A link uses one unit of the budget. -/
def followLink (fs : FileSystem) (create : Bool) (left : Nat) (place : Location)
    (components : List Component) : Except Errno (Location × Nat) :=
  match left with
  | 0 => .error .filesystemLoop
  | left + 1 => fs.walk create left place components

@[simp] theorem walk_nil (fs : FileSystem) (create : Bool) (left : Nat) (place : Location) :
    fs.walk create left place [] = .ok (place, left) := by
  cases left <;> rfl

@[simp] theorem walk_rootDir (fs : FileSystem) (create : Bool) (left : Nat) (place : Location)
    (rest : List Component) :
    fs.walk create left place (.rootDir :: rest) = fs.walk create left [] rest := by
  cases left <;> rfl

@[simp] theorem walk_curDir (fs : FileSystem) (create : Bool) (left : Nat) (place : Location)
    (rest : List Component) :
    fs.walk create left place (.curDir :: rest) =
      (fs.enter place).bind fun _ => fs.walk create left place rest := by
  cases left <;> rfl

@[simp] theorem walk_parentDir (fs : FileSystem) (create : Bool) (left : Nat) (place : Location)
    (rest : List Component) :
    fs.walk create left place (.parentDir :: rest) =
      (fs.enter place).bind fun _ => fs.walk create left place.dropLast rest := by
  cases left <;> rfl

theorem walk_normal (fs : FileSystem) (create : Bool) (left : Nat) (place : Location)
    (name : String) (rest : List Component) :
    fs.walk create left place (.normal name :: rest) =
      (fs.enter place).bind fun _ =>
        match fs.lookup (place ++ [name]) with
        | none => if create && rest.isEmpty then .ok (place ++ [name], left) else .error .notFound
        | some (.symlink target) => fs.followLink create left place (target.osComponents ++ rest)
        | some _ => fs.walk create left (place ++ [name]) rest := by
  cases left <;> rfl

theorem enter_ok_iff (fs : FileSystem) (location : Location) :
    fs.enter location = .ok () ↔ fs.lookup location = some .dir := by
  unfold enter
  split <;> simp_all

/-- A fact about walks follows the component list, and each link follows the smaller budget. -/
theorem walkInduction {motive : Nat → Location → List Component → Prop}
    (nil : ∀ left place, motive left place [])
    (rootDir : ∀ left place rest, motive left [] rest → motive left place (.rootDir :: rest))
    (curDir : ∀ left place rest, motive left place rest → motive left place (.curDir :: rest))
    (parentDir : ∀ left place rest, motive left place.dropLast rest →
      motive left place (.parentDir :: rest))
    (normal : ∀ left place name rest, motive left (place ++ [name]) rest →
      (∀ less target, left = less + 1 → motive less place (PathBuf.osComponents target ++ rest)) →
      motive left place (.normal name :: rest))
    (left : Nat) (place : Location) (components : List Component) :
    motive left place components := by
  induction left using Nat.strong_induction_on generalizing place components with
  | h left outer =>
      induction components generalizing place with
      | nil => exact nil left place
      | cons component rest ih =>
          cases component with
          | rootDir => exact rootDir left place rest (ih [])
          | curDir => exact curDir left place rest (ih place)
          | parentDir => exact parentDir left place rest (ih place.dropLast)
          | normal name =>
              refine normal left place name rest (ih (place ++ [name])) ?_
              intro less target same
              exact outer less (by omega) place (target.osComponents ++ rest)

/-- A walk that goes on continues from the place where its first part ends. -/
theorem walk_append (fs : FileSystem) (create : Bool) (left : Nat) (place : Location)
    (first second : List Component) (more : second ≠ []) :
    fs.walk create left place (first ++ second) =
      (fs.walk false left place first).bind fun reached =>
        fs.walk create reached.2 reached.1 second := by
  induction left, place, first using walkInduction with
  | nil left place => simp [Except.bind]
  | rootDir left place rest ih => simpa using ih
  | curDir left place rest ih =>
      simp only [List.cons_append, walk_curDir, ih]
      cases fs.enter place <;> rfl
  | parentDir left place rest ih =>
      simp only [List.cons_append, walk_parentDir, ih]
      cases fs.enter place <;> rfl
  | normal left place name rest ih linked =>
      simp only [List.cons_append, walk_normal, ih]
      cases fs.enter place with
      | error _ => rfl
      | ok _ =>
          simp only [Except.bind]
          rcases fs.lookup (place ++ [name]) with _ | node
          · simp [more]
          · cases node with
            | symlink target =>
                cases left with
                | zero => rfl
                | succ less =>
                    have inner := linked less target rfl
                    simpa [followLink, Except.bind] using inner
            | dir => rfl
            | file bytes => rfl

/-- The derivations of the walks that succeed. -/
inductive Walks (fs : FileSystem) (create : Bool) :
    Nat → Location → List Component → Location × Nat → Prop where
  | done (left : Nat) (place : Location) : Walks fs create left place [] (place, left)
  | rootDir {left : Nat} {place : Location} {rest : List Component} {reached : Location × Nat}
      (walks : Walks fs create left [] rest reached) :
      Walks fs create left place (.rootDir :: rest) reached
  | curDir {left : Nat} {place : Location} {rest : List Component} {reached : Location × Nat}
      (standing : fs.lookup place = some .dir) (walks : Walks fs create left place rest reached) :
      Walks fs create left place (.curDir :: rest) reached
  | parentDir {left : Nat} {place : Location} {rest : List Component} {reached : Location × Nat}
      (standing : fs.lookup place = some .dir)
      (walks : Walks fs create left place.dropLast rest reached) :
      Walks fs create left place (.parentDir :: rest) reached
  | created {left : Nat} {place : Location} {name : String} (creates : create = true)
      (standing : fs.lookup place = some .dir) (missing : fs.lookup (place ++ [name]) = none) :
      Walks fs create left place [.normal name] (place ++ [name], left)
  | linked {left : Nat} {place : Location} {name : String} {target : PathBuf}
      {rest : List Component} {reached : Location × Nat}
      (standing : fs.lookup place = some .dir)
      (link : fs.lookup (place ++ [name]) = some (.symlink target))
      (walks : Walks fs create left place (target.osComponents ++ rest) reached) :
      Walks fs create (left + 1) place (.normal name :: rest) reached
  | passed {left : Nat} {place : Location} {name : String} {node : Node} {rest : List Component}
      {reached : Location × Nat} (standing : fs.lookup place = some .dir)
      (present : fs.lookup (place ++ [name]) = some node)
      (solid : ∀ target, node ≠ .symlink target)
      (walks : Walks fs create left (place ++ [name]) rest reached) :
      Walks fs create left place (.normal name :: rest) reached

/-- A step from a place enters it first. -/
theorem enter_bind_ok_iff {α : Type} (fs : FileSystem) (place : Location)
    (next : Unit → Except Errno α) (reached : α) :
    (fs.enter place).bind next = .ok reached ↔
      fs.lookup place = some .dir ∧ next () = .ok reached := by
  rw [← enter_ok_iff]
  cases fs.enter place <;> simp [Except.bind]

/-- A walk that succeeds has a derivation. -/
theorem walks_of_walk (fs : FileSystem) (create : Bool) (left : Nat) (place : Location)
    (components : List Component) (reached : Location × Nat)
    (walked : fs.walk create left place components = .ok reached) :
    Walks fs create left place components reached := by
  induction left, place, components using walkInduction with
  | nil left place =>
      obtain rfl : (place, left) = reached := by simpa using walked
      exact .done left place
  | rootDir left place rest ih =>
      rw [walk_rootDir] at walked
      exact .rootDir (ih walked)
  | curDir left place rest ih =>
      rw [walk_curDir, enter_bind_ok_iff] at walked
      exact .curDir walked.1 (ih walked.2)
  | parentDir left place rest ih =>
      rw [walk_parentDir, enter_bind_ok_iff] at walked
      exact .parentDir walked.1 (ih walked.2)
  | normal left place name rest ih linked =>
      rw [walk_normal, enter_bind_ok_iff] at walked
      obtain ⟨standing, walked⟩ := walked
      cases present : fs.lookup (place ++ [name]) with
      | none =>
          simp only [present] at walked
          split at walked
          · rename_i creates
            rw [Bool.and_eq_true, List.isEmpty_iff] at creates
            obtain rfl : (place ++ [name], left) = reached := by simpa using walked
            rw [creates.2]
            exact .created creates.1 standing present
          · cases walked
      | some node =>
          simp only [present] at walked
          cases node with
          | symlink target =>
              cases left with
              | zero => simp [followLink] at walked
              | succ less => exact .linked standing present (linked less target rfl walked)
          | dir => exact .passed standing present (by simp) (ih walked)
          | file bytes => exact .passed standing present (by simp) (ih walked)

/-- A derivation shows what its walk does. -/
theorem Walks.walk {fs : FileSystem} {create : Bool} {left : Nat} {place : Location}
    {components : List Component} {reached : Location × Nat}
    (walks : Walks fs create left place components reached) :
    fs.walk create left place components = .ok reached := by
  induction walks with
  | done left place => simp
  | rootDir _ ih => rwa [walk_rootDir]
  | curDir standing _ ih =>
      rw [walk_curDir, enter_bind_ok_iff]
      exact ⟨standing, ih⟩
  | parentDir standing _ ih =>
      rw [walk_parentDir, enter_bind_ok_iff]
      exact ⟨standing, ih⟩
  | created creates standing missing =>
      rw [walk_normal, enter_bind_ok_iff, missing]
      exact ⟨standing, by simp [creates]⟩
  | linked standing link _ ih =>
      rw [walk_normal, enter_bind_ok_iff, link]
      exact ⟨standing, ih⟩
  | passed standing present solid _ ih =>
      rw [walk_normal, enter_bind_ok_iff, present]
      refine ⟨standing, ?_⟩
      rename_i node _ _ _
      cases node with
      | symlink target => exact absurd rfl (solid target)
      | dir => exact ih
      | file bytes => exact ih

/-- One file system extends another when it keeps every entry. -/
def Extends (later earlier : FileSystem) : Prop :=
  ∀ location node, earlier.lookup location = some node → later.lookup location = some node

/-- One file system covers another when it keeps every entry and files may get other bytes. -/
def Covers (later earlier : FileSystem) : Prop :=
  ∀ location node, earlier.lookup location = some node → later.lookup location = some node ∨
    ∃ old new, node = .file old ∧ later.lookup location = some (.file new)

theorem Extends.covers {later earlier : FileSystem} (more : later.Extends earlier) :
    later.Covers earlier :=
  fun location node present => .inl (more location node present)

theorem Covers.dir {later earlier : FileSystem} (more : later.Covers earlier)
    (location : Location) (standing : earlier.lookup location = some .dir) :
    later.lookup location = some .dir := by
  rcases more location .dir standing with same | ⟨old, new, file, _⟩
  · exact same
  · cases file

theorem Covers.symlink {later earlier : FileSystem} (more : later.Covers earlier)
    (location : Location) (target : PathBuf)
    (link : earlier.lookup location = some (.symlink target)) :
    later.lookup location = some (.symlink target) := by
  rcases more location _ link with same | ⟨old, new, file, _⟩
  · exact same
  · cases file

/-- What is no link keeps standing, and it does not become one. -/
theorem Covers.solid {later earlier : FileSystem} (more : later.Covers earlier)
    (location : Location) (node : Node) (present : earlier.lookup location = some node)
    (solid : ∀ target, node ≠ .symlink target) :
    ∃ held, later.lookup location = some held ∧ ∀ target, held ≠ .symlink target := by
  rcases more location node present with same | ⟨old, new, -, written⟩
  · exact ⟨node, same, solid⟩
  · exact ⟨.file new, written, by simp⟩

theorem enter_mono {later earlier : FileSystem} (more : later.Covers earlier)
    (location : Location) (entered : earlier.enter location = .ok ()) :
    later.enter location = .ok () := by
  rw [enter_ok_iff] at entered ⊢
  exact more.dir location entered

/-- A walk that succeeds still succeeds after entries are added and files are written. -/
theorem walk_mono {later earlier : FileSystem} (more : later.Covers earlier) (left : Nat)
    (place : Location) (components : List Component) (reached : Location × Nat)
    (walked : earlier.walk false left place components = .ok reached) :
    later.walk false left place components = .ok reached := by
  have walks := walks_of_walk earlier _ _ _ _ _ walked
  clear walked
  apply Walks.walk
  induction walks with
  | done left place => exact .done left place
  | rootDir _ ih => exact .rootDir ih
  | curDir standing _ ih => exact .curDir (more.dir _ standing) ih
  | parentDir standing _ ih => exact .parentDir (more.dir _ standing) ih
  | created creates _ _ => cases creates
  | linked standing link _ ih => exact .linked (more.dir _ standing) (more.symlink _ _ link) ih
  | passed standing present solid _ ih =>
      obtain ⟨held, still, plain⟩ := more.solid _ _ present solid
      exact .passed (more.dir _ standing) still plain ih

/-- A walk from a real place ends at a real place. -/
theorem walk_exists (fs : FileSystem) (left : Nat) (place : Location)
    (components : List Component) (reached : Location × Nat)
    (walked : fs.walk false left place components = .ok reached)
    (real : components = [] → (fs.lookup place).isSome) : (fs.lookup reached.1).isSome := by
  have walks := walks_of_walk fs _ _ _ _ _ walked
  clear walked
  induction walks with
  | done left place => exact real rfl
  | rootDir _ ih => exact ih fun _ => by simp
  | curDir standing _ ih => exact ih fun _ => by simp [standing]
  | parentDir standing _ ih => exact ih fun _ => by simp [fs.lookup_dropLast _ standing]
  | created creates _ _ => cases creates
  | linked standing _ _ ih => exact ih fun _ => by simp [standing]
  | passed _ present _ _ ih => exact ih fun _ => by simp [present]

/-- A file may be created or overwritten where no link stands and a directory holds the name. -/
def Lands (fs : FileSystem) (place : Location) : Prop :=
  (∀ target, fs.lookup place ≠ some (.symlink target)) ∧
    (fs.lookup place = some .dir ∨ fs.Puttable place)

theorem lands_dir (fs : FileSystem) (place : Location)
    (standing : fs.lookup place = some .dir) : fs.Lands place :=
  ⟨by simp [standing], .inl standing⟩

/-- A name in a directory lands unless it is a link. -/
theorem lands_named (fs : FileSystem) (place : Location) (name : String)
    (standing : fs.lookup place = some .dir)
    (solid : ∀ target, fs.lookup (place ++ [name]) ≠ some (.symlink target)) :
    fs.Lands (place ++ [name]) := by
  refine ⟨solid, ?_⟩
  by_cases dir : fs.lookup (place ++ [name]) = some .dir
  · exact .inl dir
  · exact .inr ⟨by simp, by rwa [List.dropLast_concat], dir⟩

/-- A creating walk follows the last link too, so it ends where a file may be written. -/
theorem walk_lands (fs : FileSystem) (left : Nat) (place : Location)
    (components : List Component) (reached : Location × Nat)
    (walked : fs.walk true left place components = .ok reached)
    (real : components = [] → fs.Lands place) : fs.Lands reached.1 := by
  have walks := walks_of_walk fs _ _ _ _ _ walked
  clear walked
  induction walks with
  | done left place => exact real rfl
  | rootDir _ ih => exact ih fun _ => fs.lands_dir [] fs.lookup_root
  | curDir standing _ ih => exact ih fun _ => fs.lands_dir _ standing
  | parentDir standing _ ih =>
      exact ih fun _ => fs.lands_dir _ (fs.lookup_dropLast _ standing)
  | created _ standing missing => exact fs.lands_named _ _ standing (by simp [missing])
  | linked standing _ _ ih => exact ih fun _ => fs.lands_dir _ standing
  | passed standing present solid _ ih =>
      exact ih fun _ => fs.lands_named _ _ standing (by simpa [present] using solid)

end FileSystem

end Posix
