import Mathlib.Data.List.Basic

namespace Posix

/-- A component is one step of a path as `Path::components` lists it. -/
inductive Component where
  | rootDir
  | curDir
  | parentDir
  | normal (name : String)
  deriving DecidableEq, Repr

/-- A path starts at the root, at an explicit current directory, or at neither. -/
inductive Anchor where
  | root
  | current
  | bare
  deriving DecidableEq, Repr

/-- A segment follows the start of a path. -/
inductive Segment where
  | parentDir
  | normal (name : String)
  deriving DecidableEq, Repr

/-- The text after the last component decides whether only a directory may stand there. -/
inductive Ending where
  | plain
  | slash
  | dot
  deriving DecidableEq, Repr

/-- A path keeps its start, its segments and its ending, so the root and the current directory
stand only at its start. Repeated separators are not kept, and `display` gives the normal spelling. -/
structure PathBuf where
  anchor : Anchor
  segments : List Segment
  ending : Ending
  deriving DecidableEq, Repr

/-- A location is a real place in the tree, named from the root without links. -/
abbrev Location := List String

def Anchor.components : Anchor → List Component
  | .root => [.rootDir]
  | .current => [.curDir]
  | .bare => []

def Segment.component : Segment → Component
  | .parentDir => .parentDir
  | .normal name => .normal name

namespace PathBuf

/-- `Path::components` lists the start and the segments. -/
def components (path : PathBuf) : List Component :=
  path.anchor.components ++ path.segments.map Segment.component

/-- Text segments after the first one drop empty names and single dots. -/
def bodySegment : List Char → Option Segment
  | [] => none
  | ['.'] => none
  | ['.', '.'] => some .parentDir
  | name => some (.normal (String.ofList name))

/-- The last text segment gives the ending. -/
def textEnding : List (List Char) → Ending
  | [] => .plain
  | [[]] => .plain
  | pieces => match pieces.getLast? with
      | some [] => .slash
      | some ['.'] => .dot
      | _ => .plain

/-- This function reads a path from its text. -/
def ofText (text : String) : PathBuf :=
  let pieces := text.toList.splitOn '/'
  match pieces with
  | [[]] => ⟨.bare, [], .plain⟩
  | [] :: rest => ⟨.root, rest.filterMap bodySegment, textEnding pieces⟩
  | ['.'] :: rest => ⟨.current, rest.filterMap bodySegment, textEnding pieces⟩
  | pieces => ⟨.bare, pieces.filterMap bodySegment, textEnding pieces⟩

/-- The real path of a location has no links, dots or parents. -/
def ofLocation (location : Location) : PathBuf :=
  ⟨.root, location.map .normal, .plain⟩

def componentText : Component → String
  | .rootDir => ""
  | .curDir => "."
  | .parentDir => ".."
  | .normal name => name

def endingText : Ending → String
  | .plain => ""
  | .slash => "/"
  | .dot => "/."

def display (path : PathBuf) : String :=
  if path.components = [.rootDir] then "/"
  else String.intercalate "/" (path.components.map componentText) ++ endingText path.ending

/-- The path above drops the last component. -/
def above (path : PathBuf) : PathBuf :=
  match path.segments with
  | [] => ⟨.bare, [], .plain⟩
  | segments => ⟨path.anchor, segments.dropLast, .plain⟩

/-- `Path::parent` is the path above, and the root and the empty path have none. -/
def parent (path : PathBuf) : Option PathBuf :=
  match path.components.getLast? with
  | none => none
  | some .rootDir => none
  | some _ => some path.above

/-- `Path::file_name` is the last component when it is a name. -/
def fileName (path : PathBuf) : Option String :=
  match path.segments.getLast? with
  | some (.normal name) => some name
  | _ => none

/-- `Path::starts_with` compares whole components. -/
def startsWith (path base : PathBuf) : Bool :=
  base.components.isPrefixOf path.components

/-- Two paths are equal when their components are. -/
def sameAs (path other : PathBuf) : Bool :=
  path.components == other.components

def hasParentDir (path : PathBuf) : Bool :=
  path.components.any (· == .parentDir)

/-- The stem of a name ends before its last dot, and a leading dot is part of the stem. -/
def stem (name : List Char) : List Char :=
  match name.reverse.dropWhile (· ≠ '.') with
  | [] => name
  | _ :: before => if before = [] then name else before.reverse

/-- `Path::extension` is the text after the last dot of the file name. -/
def extension (path : PathBuf) : Option String :=
  match path.fileName with
  | none => none
  | some name =>
      if stem name.toList = name.toList then none
      else some (String.ofList (name.toList.drop ((stem name.toList).length + 1)))

/-- `Path::with_extension` renames the last component and leaves a nameless path alone. -/
def withExtension (path : PathBuf) (suffix : String) : PathBuf :=
  match path.fileName with
  | none => path
  | some name => ⟨path.anchor, path.segments.dropLast ++
      [.normal (String.ofList (stem name.toList) ++ "." ++ suffix)], .plain⟩

/-- `Path::join` with one name. -/
def child (path : PathBuf) (name : String) : PathBuf :=
  ⟨path.anchor, path.segments ++ [.normal name], .plain⟩

/-- The climb lists the parents of a path whose segments are reversed, nearest first. -/
def climb (anchor : Anchor) : List Segment → List PathBuf
  | [] => if anchor = .current then [⟨.bare, [], .plain⟩] else []
  | _ :: rest => ⟨anchor, rest.reverse, .plain⟩ :: climb anchor rest

/-- The ancestors of a path start with the path itself. -/
def ancestors (path : PathBuf) : List PathBuf :=
  path :: climb path.anchor path.segments.reverse

/-- The operating system sees a closing separator as a final dot. -/
def osComponents (path : PathBuf) : List Component :=
  match path.ending with
  | .plain => path.components
  | _ => path.components ++ [.curDir]

theorem osComponents_plain (path : PathBuf) (plain : path.ending = .plain) :
    path.osComponents = path.components := by
  simp [osComponents, plain]

@[simp] theorem above_ending (path : PathBuf) : path.above.ending = .plain := by
  unfold above
  split <;> rfl

/-- The path above a last segment keeps the other segments. -/
theorem above_concat (anchor : Anchor) (before : List Segment) (last : Segment) (ending : Ending) :
    (PathBuf.mk anchor (before ++ [last]) ending).above = ⟨anchor, before, .plain⟩ := by
  unfold above
  split
  · rename_i empty
    simp at empty
  · simp

@[simp] theorem above_components (path : PathBuf) :
    path.above.components = path.components.dropLast := by
  rcases path with ⟨anchor, segments, ending⟩
  rcases List.eq_nil_or_concat segments with rfl | ⟨before, last, rfl⟩
  · cases anchor <;> rfl
  · simp only [List.concat_eq_append, above_concat, components, List.map_append, List.map_cons,
      List.map_nil, ← List.append_assoc, List.dropLast_concat]

theorem startsWith_iff (path base : PathBuf) :
    path.startsWith base = true ↔ base.components <+: path.components := by
  simp [startsWith, List.isPrefixOf_iff_prefix]

theorem startsWith_trans {path middle base : PathBuf} (upper : middle.startsWith base = true)
    (lower : path.startsWith middle = true) : path.startsWith base = true := by
  rw [startsWith_iff] at upper lower ⊢
  exact upper.trans lower

@[simp] theorem sameAs_self (path : PathBuf) : path.sameAs path = true := by
  simp [sameAs]

theorem hasParentDir_iff (path : PathBuf) :
    path.hasParentDir = true ↔ .parentDir ∈ path.components := by
  simp [hasParentDir]

theorem hasParentDir_ofLocation (location : Location) :
    (ofLocation location).hasParentDir = false := by
  simp [hasParentDir, ofLocation, components, Anchor.components, Segment.component]

/-- Only the empty path has no components. -/
theorem bare_of_components (path : PathBuf) (empty : path.components = []) :
    path.anchor = .bare ∧ path.segments = [] := by
  rcases path with ⟨anchor, segments, ending⟩
  cases anchor <;> simp_all [components, Anchor.components]

/-- A longer location lies under the real path of a shorter one. -/
theorem ofLocation_startsWith (location base : Location) :
    (ofLocation location).startsWith (ofLocation base) = true ↔ base <+: location := by
  rw [startsWith_iff]
  simp only [ofLocation, components, Anchor.components, List.singleton_append,
    List.cons_prefix_cons, true_and, List.map_map]
  have injective : Function.Injective (Segment.component ∘ Segment.normal) := by
    intro first second same
    simpa [Segment.component] using same
  constructor
  · intro covered
    obtain ⟨taken, cut, same⟩ := List.prefix_map_iff.mp covered
    rw [List.map_injective_iff.mpr injective same]
    exact cut
  · exact fun covered => covered.map _

theorem parent_eq_none_or (path : PathBuf) :
    path.parent = none ∨ path.parent = some path.above := by
  unfold parent
  split <;> simp

/-- The ancestors of a path continue with the ancestors of its parent. -/
theorem ancestors_eq (path : PathBuf) :
    path.ancestors = path :: (match path.parent with
      | none => []
      | some upper => upper.ancestors) := by
  rcases path with ⟨anchor, segments, ending⟩
  rcases List.eq_nil_or_concat segments with rfl | ⟨before, last, rfl⟩
  · cases anchor <;> rfl
  · have parent : (PathBuf.mk anchor (before ++ [last]) ending).parent =
        some ⟨anchor, before, .plain⟩ := by
      cases last <;> simp [parent, components, Segment.component, above_concat]
    rw [List.concat_eq_append, parent]
    simp [ancestors, climb]

/-- A path without parent segments lists only names after its start. -/
theorem segments_normal (path : PathBuf) (forward : path.hasParentDir = false)
    (segment : Segment) (member : segment ∈ path.segments) :
    ∃ name, segment = .normal name := by
  cases segment with
  | normal name => exact ⟨name, rfl⟩
  | parentDir =>
      have listed : path.hasParentDir = true := by
        rw [hasParentDir_iff, components]
        exact List.mem_append_right _ (List.mem_map.mpr ⟨.parentDir, member, rfl⟩)
      rw [forward] at listed
      cases listed

/-- A named path is its parent's components with one name. -/
theorem components_of_fileName (path : PathBuf) (name : String)
    (named : path.fileName = some name) :
    path.components = path.components.dropLast ++ [.normal name] := by
  rcases path with ⟨anchor, segments, ending⟩
  rcases List.eq_nil_or_concat segments with rfl | ⟨before, last, rfl⟩
  · simp [fileName] at named
  · cases last with
    | parentDir => simp [fileName] at named
    | normal other =>
        obtain rfl : other = name := by simpa [fileName] using named
        simp only [components, List.concat_eq_append, List.map_append, List.map_cons, List.map_nil,
          Segment.component, ← List.append_assoc, List.dropLast_concat]

/-- A path whose last component is a name has that file name. -/
theorem fileName_of_components (path : PathBuf) (before : List Component) (name : String)
    (shape : path.components = before ++ [.normal name]) : path.fileName = some name := by
  rcases path with ⟨anchor, segments, ending⟩
  rcases List.eq_nil_or_concat segments with rfl | ⟨front, last, rfl⟩
  · cases anchor <;>
      simp [components, Anchor.components, List.singleton_eq_append_iff] at shape
  · rw [List.concat_eq_append, components, List.map_append, ← List.append_assoc] at shape
    have same := (List.append_inj' shape rfl).2
    cases last with
    | parentDir => simp [Segment.component] at same
    | normal other =>
        obtain rfl : other = name := by simpa [Segment.component] using same
        simp [fileName]

/-- A named path keeps everything before its name under another extension. -/
theorem withExtension_named (path : PathBuf) (suffix name : String)
    (named : path.fileName = some name) :
    (path.withExtension suffix).ending = .plain ∧
      (∃ other, (path.withExtension suffix).fileName = some other) ∧
      (path.withExtension suffix).components.dropLast = path.components.dropLast := by
  rcases path with ⟨anchor, segments, ending⟩
  rcases List.eq_nil_or_concat segments with rfl | ⟨before, last, rfl⟩
  · simp [fileName] at named
  · rw [withExtension, named]
    refine ⟨rfl, ⟨_, by simp [fileName]; rfl⟩, ?_⟩
    simp [components, ← List.append_assoc]

end PathBuf

end Posix
