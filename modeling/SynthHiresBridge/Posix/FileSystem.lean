import Mathlib.Data.List.AList
import SynthHiresBridge.Posix.Path

namespace Posix

/-- A directory entry is a directory, a regular file or a symbolic link. -/
inductive Node where
  | dir
  | file (bytes : List UInt8)
  | symlink (target : PathBuf)
  deriving DecidableEq

/-- A tree lists its entries under their locations. -/
abbrev Tree := AList (fun _ : Location => Node)

/-- Pruning drops every entry whose location is gone. -/
def Tree.prune (tree : Tree) (gone : Location → Bool) : Tree :=
  ⟨tree.entries.filter fun entry => !gone entry.1,
    List.NodupKeys.sublist List.filter_sublist tree.nodupKeys⟩

theorem Tree.lookup_prune (tree : Tree) (gone : Location → Bool) (location : Location) :
    (tree.prune gone).lookup location = if gone location then none else tree.lookup location := by
  rcases tree with ⟨entries, distinct⟩
  change List.dlookup location (entries.filter _) = if _ then none else List.dlookup location entries
  clear distinct
  induction entries with
  | nil => simp
  | cons entry rest ih =>
      rcases entry with ⟨place, node⟩
      by_cases same : location = place
      · subst same
        cases lost : gone location
        · rw [List.filter_cons_of_pos (by simp [lost])]
          simp
        · rw [List.filter_cons_of_neg (by simp [lost]), ih]
          simp [lost]
      · cases lost : gone place
        · rw [List.filter_cons_of_pos (by simp [lost]),
            List.dlookup_cons_ne _ _ same, List.dlookup_cons_ne _ _ same, ih]
        · rw [List.filter_cons_of_neg (by simp [lost]), List.dlookup_cons_ne _ _ same, ih]

/-- The root is a directory and every entry stands in a directory. -/
structure FileSystem where
  tree : Tree
  cwd : Location
  rooted : tree.lookup [] = some .dir
  closed : ∀ (location : Location) (name : String),
    (tree.lookup (location ++ [name])).isSome → tree.lookup location = some .dir

namespace FileSystem

def lookup (fs : FileSystem) (location : Location) : Option Node :=
  fs.tree.lookup location

/-- The empty file system has only its root. -/
def empty : FileSystem where
  tree := AList.singleton [] .dir
  cwd := []
  rooted := rfl
  closed location name present := by
    have different : location ++ [name] ≠ [] := by simp
    simp [AList.lookup, different] at present

@[simp] theorem lookup_root (fs : FileSystem) : fs.lookup [] = some .dir :=
  fs.rooted

/-- Every entry stands in a directory. -/
theorem lookup_parent (fs : FileSystem) (location : Location) (name : String) (node : Node)
    (present : fs.lookup (location ++ [name]) = some node) : fs.lookup location = some .dir :=
  fs.closed location name (by rw [lookup] at present; simp [present])

/-- The location above a directory is a directory. -/
theorem lookup_dropLast (fs : FileSystem) (location : Location)
    (standing : fs.lookup location = some .dir) : fs.lookup location.dropLast = some .dir := by
  rcases List.eq_nil_or_concat location with rfl | ⟨above, name, rfl⟩
  · simp
  · rw [List.concat_eq_append] at standing ⊢
    rw [List.dropLast_concat]
    exact fs.lookup_parent above name .dir standing

/-- An entry may be written where a directory holds it and no directory stands. -/
def Puttable (fs : FileSystem) (location : Location) : Prop :=
  location ≠ [] ∧ fs.lookup location.dropLast = some .dir ∧ fs.lookup location ≠ some .dir

instance (fs : FileSystem) (location : Location) : Decidable (fs.Puttable location) :=
  inferInstanceAs (Decidable (_ ∧ _))

/-- No entry stands below an entry that is not a directory. -/
theorem lookup_below (fs : FileSystem) (location : Location) (name : String)
    (plain : fs.lookup location ≠ some .dir) : fs.lookup (location ++ [name]) = none := by
  cases present : fs.lookup (location ++ [name]) with
  | none => rfl
  | some node => exact absurd (fs.lookup_parent location name node present) plain

/-- Writing an entry replaces a file or a link, or adds a new name. -/
def put (fs : FileSystem) (location : Location) (node : Node) : FileSystem :=
  if fits : fs.Puttable location then
    { tree := fs.tree.insert location node
      cwd := fs.cwd
      rooted := by
        rw [AList.lookup_insert_ne (Ne.symm fits.1)]
        exact fs.rooted
      closed := by
        intro place name present
        by_cases inside : place = location
        · subst inside
          have below := fs.lookup_below place name fits.2.2
          have different : place ++ [name] ≠ place := by simp
          rw [AList.lookup_insert_ne different] at present
          rw [lookup] at below
          simp [below] at present
        · rw [AList.lookup_insert_ne inside]
          by_cases written : place ++ [name] = location
          · have parent := fits.2.1
            rw [← written, List.dropLast_concat] at parent
            exact parent
          · rw [AList.lookup_insert_ne written] at present
            exact fs.closed place name present }
  else fs

theorem lookup_put (fs : FileSystem) (location : Location) (node : Node)
    (fits : fs.Puttable location) (place : Location) :
    (fs.put location node).lookup place =
      if place = location then some node else fs.lookup place := by
  rw [put, dif_pos fits]
  by_cases same : place = location
  · subst same
    simp [lookup]
  · simp [lookup, same, AList.lookup_insert_ne same]

@[simp] theorem put_cwd (fs : FileSystem) (location : Location) (node : Node) :
    (fs.put location node).cwd = fs.cwd := by
  unfold put
  split <;> rfl

/-- Removing a tree drops an entry and everything below it, and the root stays. -/
def removeTree (fs : FileSystem) (location : Location) : FileSystem :=
  if nested : location ≠ [] then
    { tree := fs.tree.prune location.isPrefixOf
      cwd := fs.cwd
      rooted := by
        rw [Tree.lookup_prune, if_neg (by simpa using nested)]
        exact fs.rooted
      closed := by
        intro place name present
        rw [Tree.lookup_prune] at present ⊢
        split at present
        · simp at present
        · rename_i kept
          have above : ¬ location.isPrefixOf place = true := by
            intro covered
            rw [List.isPrefixOf_iff_prefix] at covered kept
            exact kept (covered.trans (List.prefix_append place [name]))
          rw [if_neg above]
          exact fs.closed place name present }
  else fs

theorem lookup_removeTree (fs : FileSystem) (location place : Location) (nested : location ≠ []) :
    (fs.removeTree location).lookup place =
      if location.isPrefixOf place then none else fs.lookup place := by
  rw [removeTree, dif_pos nested]
  exact Tree.lookup_prune _ _ _

@[simp] theorem removeTree_cwd (fs : FileSystem) (location : Location) :
    (fs.removeTree location).cwd = fs.cwd := by
  unfold removeTree
  split <;> rfl

/-- Emptying a directory drops everything strictly below it. -/
def removeChildren (fs : FileSystem) (location : Location) : FileSystem where
  tree := fs.tree.prune fun place => location.isPrefixOf place && place != location
  cwd := fs.cwd
  rooted := by
    rw [Tree.lookup_prune]
    have kept : (location.isPrefixOf [] && ([] : Location) != location) = false := by
      cases location <;> simp
    rw [kept]
    exact fs.rooted
  closed := by
    intro place name present
    rw [Tree.lookup_prune] at present ⊢
    split at present
    · simp at present
    · rename_i kept
      rw [if_neg]
      · exact fs.closed place name present
      · intro gone
        apply kept
        simp only [Bool.and_eq_true, List.isPrefixOf_iff_prefix, bne_iff_ne] at gone ⊢
        refine ⟨gone.1.trans (List.prefix_append place [name]), ?_⟩
        intro same
        have long := gone.1.length_le
        have short := congrArg List.length same
        simp only [List.length_append, List.length_singleton] at short
        omega

theorem lookup_removeChildren (fs : FileSystem) (location place : Location) :
    (fs.removeChildren location).lookup place =
      if location.isPrefixOf place && place != location then none else fs.lookup place :=
  Tree.lookup_prune _ _ _

/-- The names in a directory. -/
def children (fs : FileSystem) (location : Location) : List String :=
  fs.tree.keys.filterMap fun place =>
    if place.dropLast = location then place.getLast? else none

end FileSystem

end Posix
