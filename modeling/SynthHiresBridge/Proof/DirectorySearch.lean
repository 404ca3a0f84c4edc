import Mathlib.Data.List.Flatten
import Mathlib.Data.List.Perm.Subperm
import SynthHiresBridge.Data.Fallible
import SynthHiresBridge.Proof.MatchText

namespace Daemon.AstOps

open Posix

variable (disk : Disk) (lang : Option SupportLang)

/-- A directory that cannot be opened shows nothing. -/
def entries (dir : PathBuf) : List (String × Bool) :=
  match disk.readDir dir with
  | .ok entries => entries
  | .error _ => []

/-- A file stands under a directory, below directories that are worth a search. -/
inductive Under : PathBuf → PathBuf → Prop
  | here {dir name} (listed : (name, false) ∈ entries disk dir) : Under dir (dir.child name)
  | deeper {dir name file} (listed : (name, true) ∈ entries disk dir) (worth : name ∉ skipDirs)
      (below : Under (dir.child name) file) : Under dir file

/-- The files of a directory come with the number of files met so far, counted where the directory
was opened or where its file before was met. -/
def markedEntries (deeper : PathBuf → Nat → List (PathBuf × Nat)) (dir : PathBuf) :
    List (String × Bool) → (mark count : Nat) → List (PathBuf × Nat)
  | [], _, _ => []
  | (name, true) :: rest, mark, count =>
      if name ∈ skipDirs then markedEntries deeper dir rest mark count
      else
        let inner := deeper (dir.child name) count
        inner ++ markedEntries deeper dir rest mark (count + inner.length)
  | (name, false) :: rest, mark, count =>
      if keeps lang (dir.child name) then
        (dir.child name, mark) :: markedEntries deeper dir rest (count + 1) (count + 1)
      else markedEntries deeper dir rest mark count

/-- All files of a language down to some level, in the order of a walk. -/
def marked : Nat → PathBuf → Nat → List (PathBuf × Nat)
  | 0, _, _ => []
  | left + 1, dir, count =>
      markedEntries lang (marked left) dir (entries disk dir) count count

/-- A walk keeps a file whose number is below the limit. -/
def keptOf (files : List (PathBuf × Nat)) : List PathBuf :=
  (files.filter fun file => file.2 < maxWalkFiles).map Prod.fst

/-- Two counts are the same below the limit of a walk. -/
def Agree (first second : Nat) : Prop :=
  min first maxWalkFiles = min second maxWalkFiles

variable {disk lang}

section Marks

variable {deeper : PathBuf → Nat → List (PathBuf × Nat)}

/-- No file has a smaller number than its directory. -/
theorem mark_le_entries (inner : ∀ dir count, ∀ file ∈ deeper dir count, count ≤ file.2)
    {dir : PathBuf} {names : List (String × Bool)} {mark count : Nat} (low : mark ≤ count) :
    ∀ file ∈ markedEntries lang deeper dir names mark count, mark ≤ file.2 := by
  induction names generalizing mark count with
  | nil => exact nofun
  | cons entry rest ih =>
      obtain ⟨name, _ | _⟩ := entry
      · rw [markedEntries]
        split_ifs
        · rw [List.forall_mem_cons]
          exact ⟨Nat.le_refl _, fun file member =>
            Nat.le_trans (by omega) (ih (Nat.le_refl _) file member)⟩
        · exact ih low
      · rw [markedEntries]
        split_ifs
        · exact ih low
        · intro file member
          rcases List.mem_append.mp member with below | later
          · exact Nat.le_trans low (inner _ _ file below)
          · exact ih (Nat.le_trans low (Nat.le_add_right _ _)) file later

theorem mark_le {left : Nat} {dir : PathBuf} {count : Nat} :
    ∀ file ∈ marked disk lang left dir count, count ≤ file.2 := by
  induction left generalizing dir count with
  | zero => exact nofun
  | succ left ih => exact mark_le_entries (fun dir count => ih) (Nat.le_refl count)

theorem keptOf_append (first second : List (PathBuf × Nat)) :
    keptOf (first ++ second) = keptOf first ++ keptOf second := by
  rw [keptOf, List.filter_append, List.map_append]
  rfl

theorem keptOf_late {files : List (PathBuf × Nat)} {count : Nat}
    (late : ∀ file ∈ files, count ≤ file.2) (beyond : maxWalkFiles ≤ count) : keptOf files = [] := by
  rw [keptOf, List.map_eq_nil_iff, List.filter_eq_nil_iff]
  intro file member
  rw [decide_eq_true_iff]
  have := late file member
  omega

end Marks

/-- A walk that goes on adds the files below the limit. -/
def Gains (before : List PathBuf) (count : Nat) (files : List (PathBuf × Nat))
    (after : List PathBuf) : Prop :=
  after = before ++ keptOf files ∧ Agree after.length (count + files.length)

theorem Gains.append {before middle after : List PathBuf} {count : Nat}
    {files more : List (PathBuf × Nat)} (first : Gains before count files middle)
    (second : Gains middle (count + files.length) more after) :
    Gains before count (files ++ more) after := by
  obtain ⟨same, -⟩ := first
  obtain ⟨also, agree⟩ := second
  refine ⟨by rw [also, same, keptOf_append, List.append_assoc], ?_⟩
  rwa [List.length_append, ← Nat.add_assoc]

theorem Gains.late {out : List PathBuf} {count : Nat} {files : List (PathBuf × Nat)}
    (agree : Agree out.length count) (beyond : maxWalkFiles ≤ out.length)
    (late : ∀ file ∈ files, count ≤ file.2) : Gains out count files out := by
  rw [Agree] at agree
  have reached : maxWalkFiles ≤ count := by omega
  refine ⟨by rw [keptOf_late late reached, List.append_nil], ?_⟩
  rw [Agree]
  omega

theorem Gains.one {out : List PathBuf} {mark count : Nat} (file : PathBuf)
    (below : mark < maxWalkFiles) (agree : Agree out.length count) :
    Gains out count [(file, mark)] (out ++ [file]) := by
  refine ⟨by simp [keptOf, below], ?_⟩
  rw [Agree] at agree ⊢
  simp only [List.length_append, List.length_singleton]
  omega

/-- A directory adds its files below the limit. -/
theorem collectEntries_gains {deeper : PathBuf → Nat → List (PathBuf × Nat)}
    (walk : PathBuf → List PathBuf → Except DaemonError (List PathBuf))
    (inner : ∀ dir count, ∀ file ∈ deeper dir count, count ≤ file.2)
    (gains : ∀ dir out count after, Agree out.length count → walk dir out = .ok after →
      Gains out count (deeper dir count) after)
    {dir : PathBuf} {names : List (String × Bool)} {out after : List PathBuf} {mark count : Nat}
    (low : mark ≤ count) (below : mark < maxWalkFiles) (agree : Agree out.length count)
    (done : collectEntries walk lang dir names out = .ok after) :
    Gains out count (markedEntries lang deeper dir names mark count) after := by
  induction names generalizing out mark count with
  | nil =>
      obtain rfl := Except.ok.inj done
      exact ⟨(List.append_nil _).symm, agree⟩
  | cons entry rest ih =>
      obtain ⟨name, _ | _⟩ := entry
      · rw [collectEntries] at done
        rw [markedEntries]
        split_ifs at done ⊢ with keep full
        · -- the walk ends with this file
          obtain rfl := Except.ok.inj done
          have last := Gains.one (dir.child name) below agree
          have later : ∀ file ∈ markedEntries lang deeper dir rest (count + 1) (count + 1),
              count + 1 ≤ file.2 := mark_le_entries inner (Nat.le_refl (count + 1))
          exact last.append (Gains.late last.2 full later)
        · have last := Gains.one (dir.child name) below agree
          have small : count + 1 < maxWalkFiles := by
            unfold Agree at agree
            simp only [List.length_append, List.length_singleton] at agree full
            omega
          exact last.append (ih (Nat.le_refl _) small last.2 done)
        · exact ih low below agree done
      · rw [collectEntries] at done
        rw [markedEntries]
        simp only [List.contains_iff_mem] at done
        split_ifs at done ⊢ with skip
        · exact ih low below agree done
        · cases walked : walk (dir.child name) out with
          | error error =>
              rw [walked] at done
              cases done
          | ok middle =>
              rw [walked] at done
              have first := gains _ _ _ _ agree walked
              exact first.append (ih (Nat.le_trans low (Nat.le_add_right _ _)) below first.2 done)

/-- A walk that ends without an error keeps the files below the limit. -/
theorem collectFiles_gains {left : Nat} {dir : PathBuf} {out after : List PathBuf} {count : Nat}
    (agree : Agree out.length count) (done : collectFiles disk lang left dir out = .ok after) :
    Gains out count (marked disk lang left dir count) after := by
  induction left generalizing dir out after count with
  | zero =>
      obtain rfl := Except.ok.inj done
      exact ⟨(List.append_nil _).symm, agree⟩
  | succ left ih =>
      rw [collectFiles] at done
      split_ifs at done with full
      · obtain rfl := Except.ok.inj done
        exact Gains.late agree full mark_le
      · have small : count < maxWalkFiles := by
          rw [Agree] at agree
          omega
        rw [marked, entries]
        cases listed : disk.readDir dir with
        | error errno =>
            rw [listed] at done
            cases done
        | ok names =>
            rw [listed] at done
            dsimp only at done ⊢
            exact collectEntries_gains (collectFiles disk lang left) (fun dir count => mark_le)
              (fun dir out count after => ih) (Nat.le_refl _) small agree done

section Members

variable {deeper : PathBuf → Nat → List (PathBuf × Nat)}

theorem under_of_mem_entries {dir : PathBuf} {names : List (String × Bool)} {mark count : Nat}
    (inner : ∀ dir count, ∀ file ∈ deeper dir count, Under disk dir file.1 ∧ keeps lang file.1)
    (listed : ∀ entry ∈ names, entry ∈ entries disk dir) :
    ∀ file ∈ markedEntries lang deeper dir names mark count,
      Under disk dir file.1 ∧ keeps lang file.1 := by
  induction names generalizing mark count with
  | nil => exact nofun
  | cons entry rest ih =>
      obtain ⟨here, later⟩ := List.forall_mem_cons.mp listed
      obtain ⟨name, _ | _⟩ := entry
      · rw [markedEntries]
        split_ifs with keep
        · exact List.forall_mem_cons.mpr ⟨⟨.here here, keep⟩, ih later⟩
        · exact ih later
      · rw [markedEntries]
        split_ifs with skip
        · exact ih later
        · intro file member
          rcases List.mem_append.mp member with below | after
          · obtain ⟨under, keep⟩ := inner _ _ file below
            exact ⟨.deeper here skip under, keep⟩
          · exact ih later file after

/-- Only files of the language under a directory are met. -/
theorem under_of_mem_marked {left : Nat} {dir : PathBuf} {count : Nat} :
    ∀ file ∈ marked disk lang left dir count, Under disk dir file.1 ∧ keeps lang file.1 := by
  induction left generalizing dir count with
  | zero => exact nofun
  | succ left ih => exact under_of_mem_entries (fun dir count => ih) fun entry member => member

/-- A path goes on with a name below a directory. -/
def Passes (dir : PathBuf) (name : String) (file : PathBuf) : Prop :=
  ∃ more, file.segments = dir.segments ++ .normal name :: more

theorem Passes.unique {dir file : PathBuf} {first second : String} (one : Passes dir first file)
    (other : Passes dir second file) : first = second := by
  obtain ⟨more, same⟩ := one
  obtain ⟨others, also⟩ := other
  rw [same] at also
  exact Segment.normal.inj (List.cons.inj (List.append_cancel_left also)).1

theorem Passes.child {dir file : PathBuf} {name below : String}
    (passes : Passes (dir.child name) below file) : Passes dir name file := by
  obtain ⟨more, same⟩ := passes
  exact ⟨.normal below :: more, by rw [same, PathBuf.child, List.append_assoc]; rfl⟩

theorem passes_of_mem_entries {dir : PathBuf} {names : List (String × Bool)} {mark count : Nat}
    (inner : ∀ dir count, ∀ file ∈ deeper dir count, ∃ name, Passes dir name file.1) :
    ∀ file ∈ markedEntries lang deeper dir names mark count,
      ∃ name ∈ names.map Prod.fst, Passes dir name file.1 := by
  induction names generalizing mark count with
  | nil => exact nofun
  | cons entry rest ih =>
      have later : ∀ {mark count}, ∀ file ∈ markedEntries lang deeper dir rest mark count,
          ∃ name ∈ (entry :: rest).map Prod.fst, Passes dir name file.1 := by
        intro mark count file member
        obtain ⟨name, known, passes⟩ := ih file member
        exact ⟨name, .tail _ known, passes⟩
      obtain ⟨name, _ | _⟩ := entry
      · rw [markedEntries]
        split_ifs
        · exact List.forall_mem_cons.mpr ⟨⟨name, .head _, [], rfl⟩, later⟩
        · exact later
      · rw [markedEntries]
        split_ifs
        · exact later
        · intro file member
          rcases List.mem_append.mp member with below | after
          · obtain ⟨other, passes⟩ := inner _ _ file below
            exact ⟨name, .head _, passes.child⟩
          · exact later file after

theorem passes_of_mem_marked {left : Nat} {dir : PathBuf} {count : Nat} :
    ∀ file ∈ marked disk lang left dir count, ∃ name, Passes dir name file.1 := by
  induction left generalizing dir count with
  | zero => exact nofun
  | succ left ih =>
      intro file member
      obtain ⟨name, -, passes⟩ := passes_of_mem_entries (fun dir count => ih) file member
      exact ⟨name, passes⟩

theorem nodup_entries {dir : PathBuf} {names : List (String × Bool)} {mark count : Nat}
    (distinct : (names.map Prod.fst).Nodup)
    (inner : ∀ dir count, ∀ file ∈ deeper dir count, ∃ name, Passes dir name file.1)
    (once : ∀ dir count, ((deeper dir count).map Prod.fst).Nodup) :
    ((markedEntries lang deeper dir names mark count).map Prod.fst).Nodup := by
  induction names generalizing mark count with
  | nil => exact List.nodup_nil
  | cons entry rest ih =>
      obtain ⟨name, kind⟩ := entry
      rw [List.map_cons, List.nodup_cons] at distinct
      obtain ⟨fresh, others⟩ := distinct
      have apart : ∀ {mark count} {file : PathBuf}, Passes dir name file →
          file ∉ (markedEntries lang deeper dir rest mark count).map Prod.fst := by
        intro mark count file passes member
        obtain ⟨later, held, rfl⟩ := List.mem_map.mp member
        obtain ⟨other, known, also⟩ := passes_of_mem_entries inner later held
        rw [passes.unique also] at fresh
        exact fresh known
      cases kind
      · rw [markedEntries]
        split_ifs
        · exact List.nodup_cons.mpr ⟨apart ⟨[], rfl⟩, ih others⟩
        · exact ih others
      · rw [markedEntries]
        split_ifs
        · exact ih others
        · rw [List.map_append, List.nodup_append']
          refine ⟨once _ _, ih others, fun file below => ?_⟩
          obtain ⟨held, member, rfl⟩ := List.mem_map.mp below
          obtain ⟨other, passes⟩ := inner _ _ held member
          exact apart passes.child

/-- The names in a directory are distinct. -/
theorem nodup_children (fs : FileSystem) (location : Location) :
    (fs.children location).Nodup := by
  refine fs.tree.nodupKeys.filterMap fun first second name one other => ?_
  have ends : ∀ place : Location, place.getLast? = some name → place = place.dropLast ++ [name] :=
    fun place last => (List.dropLast_append_getLast? name last).symm
  split_ifs at one other with here also
  · rw [ends first one, ends second other, here, also]
  · cases other
  · cases one
  · cases one

theorem nodup_names (dir : PathBuf) : ((entries disk dir).map Prod.fst).Nodup := by
  rw [entries]
  cases listed : disk.readDir dir with
  | error errno => exact List.nodup_nil
  | ok names =>
      rw [Disk.readDir] at listed
      cases refused : disk.refuses dir with
      | some errno =>
          rw [refused] at listed
          cases listed
      | none =>
          rw [refused] at listed
          obtain ⟨real, -, shown⟩ := Except.bind_ok_iff.mp listed
          split_ifs at shown
          obtain rfl := Except.ok.inj shown
          rw [List.map_map]
          exact (List.map_id _).symm ▸ nodup_children disk.fs real

/-- No file is met twice. -/
theorem nodup_marked {left : Nat} {dir : PathBuf} {count : Nat} :
    ((marked disk lang left dir count).map Prod.fst).Nodup := by
  induction left generalizing dir count with
  | zero => exact List.nodup_nil
  | succ left ih =>
      exact nodup_entries (nodup_names dir) (fun dir count => passes_of_mem_marked)
        fun dir count => ih

end Members

section Complete

variable (host : Host) (library : AstLibrary) (disk : Disk) (gate : CapabilityGate)
  (req : AstGrepRequest)

/-- The matches in a file that can be read, in the language of the request or of the file. -/
def foundIn (file : PathBuf) : List Found :=
  match (explicitLang library req.language).or (file.extension.bind langFromExtension) with
  | none => []
  | some lang => match disk.readToString file, compilePattern host library req.pattern lang with
    | .ok source, .ok findAll => findAll source
    | _, _ => []

/-- A file of an eligible language under the directory of a request has a match. -/
def Wanted (file : PathBuf) : Prop :=
  Under disk (.ofText req.path) file ∧ keeps (explicitLang library req.language) file = true ∧
    foundIn host library disk req file ≠ []

/-- Every match of every wanted file is reported, in the order of the files. -/
def Complete (result : AstGrepResult) : Prop :=
  ∃ files : List PathBuf, files.Nodup ∧
    files.Pairwise (fun first second => pathRank first ≤ pathRank second) ∧
    (∀ file, file ∈ files ↔ Wanted host library disk req file) ∧
    List.Forall₂ Reports (files.flatMap fun file =>
      (foundIn host library disk req file).map (some file.display, ·)) result.found

/-- A result that misses a match says so. -/
def Honest (result : AstGrepResult) : Prop :=
  result.truncated = false → Complete host library disk req result

/-- The walk keeps a file at most ten directories down, where less than two thousand files were met
before its directory was opened or up to the file before it in that directory. -/
def Walked (file : PathBuf) : Prop :=
  ∃ mark, (file, mark) ∈ marked disk (explicitLang library req.language) (maxWalkDepth + 1)
    (.ofText req.path) 0 ∧ mark < maxWalkFiles

/-- The files of the walk in the order of the search. -/
def walkedFiles : List PathBuf :=
  sortFiles (keptOf (marked disk (explicitLang library req.language) (maxWalkDepth + 1)
    (.ofText req.path) 0))

variable {host library disk gate req}

theorem mem_walkedFiles {file : PathBuf} :
    file ∈ walkedFiles library disk req ↔ Walked library disk req file := by
  rw [walkedFiles, sortFiles, List.mem_insertionSort, keptOf, List.mem_map, Walked]
  constructor
  · rintro ⟨⟨file, mark⟩, member, rfl⟩
    obtain ⟨met, below⟩ := List.mem_filter.mp member
    exact ⟨mark, met, of_decide_eq_true below⟩
  · rintro ⟨mark, met, below⟩
    exact ⟨(file, mark), List.mem_filter.mpr ⟨met, decide_eq_true below⟩, rfl⟩

theorem nodup_walkedFiles : (walkedFiles library disk req).Nodup := by
  rw [walkedFiles, sortFiles, (List.perm_insertionSort _ _).nodup_iff]
  exact nodup_marked.sublist (List.filter_sublist.map Prod.fst)

theorem sorted_walkedFiles : (walkedFiles library disk req).Pairwise
    fun first second => pathRank first ≤ pathRank second :=
  List.pairwise_insertionSort _ _

theorem walked_under {file : PathBuf} (walked : Walked library disk req file) :
    Under disk (.ofText req.path) file ∧
      keeps (explicitLang library req.language) file = true := by
  obtain ⟨mark, met, -⟩ := walked
  exact under_of_mem_marked _ met

/-- A search that returns went through the files of the walk. -/
theorem collected_of_returned {result : AstGrepResult}
    (returned : grepDir host library disk gate req = some (.ok result)) : ∃ collected,
      collectFiles disk (explicitLang library req.language) (maxWalkDepth + 1)
        (.ofText req.path) [] = .ok collected ∧
      sortFiles collected = walkedFiles library disk req := by
  cases collected : collectFiles disk (explicitLang library req.language) (maxWalkDepth + 1)
      (.ofText req.path) [] with
  | error error =>
      rw [grepDir, collected] at returned
      cases returned
  | ok files =>
      have start : Agree ([] : List PathBuf).length 0 := rfl
      obtain ⟨same, -⟩ := collectFiles_gains start collected
      exact ⟨files, rfl, by rw [walkedFiles, same, List.nil_append]⟩

theorem look_ok {file : PathBuf} {founds : List Found}
    (looked : look host library disk gate (explicitLang library req.language) req.pattern file =
      .ok founds) : founds = foundIn host library disk req file := by
  rw [look] at looked
  rw [foundIn]
  cases checked : ensureFile gate "desktop.fs.read" file with
  | error error =>
      rw [checked] at looked
      cases looked
  | ok granted =>
      rw [checked] at looked
      dsimp only at looked
      cases known : (explicitLang library req.language).or
          (file.extension.bind langFromExtension) with
      | none =>
          rw [known] at looked
          exact (Except.ok.inj looked).symm
      | some lang =>
          rw [known] at looked
          dsimp only at looked ⊢
          cases read : disk.readToString file with
          | error error =>
              rw [read] at looked
              exact (Except.ok.inj looked).symm
          | ok source =>
              rw [read] at looked
              obtain ⟨findAll, compiled, rfl⟩ := Except.map_ok_iff.mp looked
              rw [compiled]

/-- A search that returns without a cut has looked into every file. -/
theorem looked_of_returned {explicit : Option SupportLang} {pattern : String} {cap : Nat}
    {files : List PathBuf} {search after : Search}
    (done : grepFiles host library disk gate explicit pattern cap files search =
      some (.ok after)) (whole : after.truncated = false) :
    ∀ file ∈ files, ∃ founds, look host library disk gate explicit pattern file = .ok founds := by
  induction files generalizing search with
  | nil => exact nofun
  | cons file rest ih =>
      rw [grepFiles_cons] at done
      split_ifs at done with full
      · obtain rfl := Except.ok.inj (Option.some.inj done)
        cases whole
      · cases looked : look host library disk gate explicit pattern file with
        | error error =>
            rw [looked] at done
            cases done
        | ok founds =>
            rw [looked] at done
            obtain ⟨reported, -, later⟩ := Option.bind_eq_some_iff.mp done
            exact List.forall_mem_cons.mpr ⟨⟨founds, looked⟩, ih later⟩

theorem offered_eq {files : List PathBuf}
    (looked : ∀ file ∈ files, ∃ founds, look host library disk gate
      (explicitLang library req.language) req.pattern file = .ok founds) :
    offered host library disk gate (explicitLang library req.language) req.pattern files =
      files.flatMap fun file =>
        (foundIn host library disk req file).map (some file.display, ·) := by
  induction files with
  | nil => rfl
  | cons file rest ih =>
      obtain ⟨⟨founds, here⟩, later⟩ := List.forall_mem_cons.mp looked
      rw [offered_cons here, look_ok here, ih later, List.flatMap_cons]

/-- What a search over a directory returns. -/
theorem returned_spec {result : AstGrepResult}
    (returned : grepDir host library disk gate req = some (.ok result)) :
    (result.truncated = true ↔ Overfull host library disk gate (explicitLang library req.language)
      req.pattern (capOf req) (walkedFiles library disk req)) ∧
    (result.truncated = false → List.Forall₂ Reports ((walkedFiles library disk req).flatMap
      fun file => (foundIn host library disk req file).map (some file.display, ·))
        result.found) := by
  obtain ⟨collected, walk, files⟩ := collected_of_returned returned
  obtain ⟨language, same⟩ := grepDir_collected host gate walk
  rw [same, files] at returned
  obtain ⟨searched, done, kept⟩ := Option.map_eq_some_iff.mp returned
  obtain ⟨after, rfl, rfl⟩ := Except.map_ok_iff.mp kept
  have cuttable : ∀ offer ∈ (offered host library disk gate (explicitLang library req.language)
      req.pattern (walkedFiles library disk req)).take (capOf req), Cuttable offer.2.text := by
    intro offer member
    by_contra inside
    rw [grepFiles_of_not_cuttable inside member] at done
    cases done
  obtain ⟨answer, ended, ok⟩ := grepFiles_of_cuttable (capOf req) ⟨[], false, []⟩ cuttable
  obtain rfl := Option.some.inj (ended.symm.trans done)
  obtain ⟨reported, found, all, flag⟩ := ok after rfl
  have overfull : after.truncated = true ↔ _ := flag.trans (or_iff_right Bool.false_ne_true)
  refine ⟨overfull, fun whole => ?_⟩
  change after.truncated = false at whole
  have own := offered_eq (looked_of_returned done whole)
  rw [← own]
  change List.Forall₂ Reports _ after.found
  rw [found]
  have room : (offered host library disk gate (explicitLang library req.language) req.pattern
      (walkedFiles library disk req)).length ≤ capOf req := by
    by_contra more
    have beyond : after.truncated = true := overfull.mpr ⟨?_, .inr (Nat.lt_of_not_le more)⟩
    · rw [whole] at beyond
      cases beyond
    · intro none
      rw [none] at more
      exact more (Nat.zero_le _)
  have taken : List.Forall₂ Reports ((offered host library disk gate
      (explicitLang library req.language) req.pattern (walkedFiles library disk req)).take
        (capOf req)) reported := all
  rwa [List.take_of_length_le room] at taken

theorem flatMap_wanted (files : List PathBuf) :
    (files.filter fun file => foundIn host library disk req file ≠ []).flatMap (fun file =>
      (foundIn host library disk req file).map ((some file.display : Option String), ·)) =
    files.flatMap fun file => (foundIn host library disk req file).map (some file.display, ·) := by
  induction files with
  | nil => rfl
  | cons file rest ih =>
      rw [List.filter_cons, List.flatMap_cons]
      split_ifs with wanted
      · rw [List.flatMap_cons, ih]
      · have none : foundIn host library disk req file = [] := by simpa using wanted
        rw [none, ih]
        rfl

/-- A complete result leaves no file with a match out. -/
theorem walked_of_complete {result : AstGrepResult}
    (all : List.Forall₂ Reports ((walkedFiles library disk req).flatMap
      fun file => (foundIn host library disk req file).map (some file.display, ·)) result.found)
    (complete : Complete host library disk req result) :
    ∀ file, Wanted host library disk req file → Walked library disk req file := by
  intro file wanted
  by_contra outside
  obtain ⟨files, distinct, -, members, reported⟩ := complete
  let found (file : PathBuf) : List (Option String × Found) :=
    (foundIn host library disk req file).map (some file.display, ·)
  let kept := (walkedFiles library disk req).filter fun file =>
    foundIn host library disk req file ≠ []
  -- the file and those of the walk are different ones of the complete list
  have inside : (file :: kept).Subperm files := by
    apply List.subperm_of_subset
    · refine List.nodup_cons.mpr ⟨fun member => ?_, nodup_walkedFiles.filter _⟩
      exact outside (mem_walkedFiles.mp (List.mem_filter.mp member).1)
    · intro other member
      rw [members]
      rcases List.mem_cons.mp member with rfl | later
      · exact wanted
      · obtain ⟨walked, some⟩ := List.mem_filter.mp later
        obtain ⟨under, keep⟩ := walked_under (mem_walkedFiles.mp walked)
        exact ⟨under, keep, of_decide_eq_true some⟩
  obtain ⟨middle, perm, sublist⟩ := inside
  have short := (sublist.flatMap found).length_le
  rw [(perm.flatMap_right found).length_eq, List.flatMap_cons, List.length_append] at short
  have walk : (kept.flatMap found).length = result.found.length := by
    rw [← all.length_eq]
    exact congrArg List.length (flatMap_wanted _)
  have total : (files.flatMap found).length = result.found.length := reported.length_eq
  have none : (found file).length = 0 := by omega
  rw [List.length_map, List.length_eq_zero_iff] at none
  exact wanted.2.2 none

/-- A search over a directory that returns is honest exactly where the walk keeps every file with a
match, or the reported matches reach their limit. -/
theorem grepDir_honest_iff {result : AstGrepResult}
    (returned : grepDir host library disk gate req = some (.ok result)) :
    Honest host library disk req result ↔
      (∀ file, Wanted host library disk req file → Walked library disk req file) ∨
        Overfull host library disk gate (explicitLang library req.language) req.pattern
          (capOf req) (walkedFiles library disk req) := by
  obtain ⟨flagged, whole⟩ := returned_spec returned
  constructor
  · intro honest
    cases flag : result.truncated with
    | true => exact .inr (flagged.mp flag)
    | false => exact .inl (walked_of_complete (whole flag) (honest flag))
  · intro reached flag
    rcases reached with walked | full
    · refine ⟨(walkedFiles library disk req).filter fun file =>
        foundIn host library disk req file ≠ [], nodup_walkedFiles.filter _,
        sorted_walkedFiles.filter _, fun file => ?_, ?_⟩
      · rw [List.mem_filter, mem_walkedFiles, decide_eq_true_iff]
        constructor
        · rintro ⟨here, some⟩
          obtain ⟨under, keep⟩ := walked_under here
          exact ⟨under, keep, some⟩
        · exact fun wanted => ⟨walked file wanted, wanted.2.2⟩
      · rw [flatMap_wanted]
        exact whole flag
    · rw [flagged.mpr full] at flag
      cases flag

theorem oneFile_returned : grepDir .quiet wholeLibrary (oneFile "x") readGate
    ⟨"/", "$A", none, none⟩ =
      some (.ok ⟨"Python", [⟨1, 1, 1, 502, "x", some "/a.py"⟩], false⟩) := by
  decide

/-- A directory with one file is searched. -/
theorem oneFile_honest_iff : Honest .quiet wholeLibrary (oneFile "x") ⟨"/", "$A", none, none⟩
      ⟨"Python", [⟨1, 1, 1, 502, "x", some "/a.py"⟩], false⟩ ↔
    (∀ file, Wanted .quiet wholeLibrary (oneFile "x") ⟨"/", "$A", none, none⟩ file →
      Walked wholeLibrary (oneFile "x") ⟨"/", "$A", none, none⟩ file) ∨
        Overfull .quiet wholeLibrary (oneFile "x") readGate none "$A" 100
          (walkedFiles wholeLibrary (oneFile "x") ⟨"/", "$A", none, none⟩) :=
  grepDir_honest_iff oneFile_returned

/-- Directories stand one in another. -/
def deepTree : Nat → FileSystem
  | 0 => .empty
  | depth + 1 => (deepTree depth).put (List.replicate (depth + 1) "d") .dir

/-- A file stands eleven directories below the first one. -/
def deepDisk : Disk where
  fs := (deepTree 12).put (List.replicate 12 "d" ++ ["a.py"]) (.file [120])
  refuses _ := none

def deepPath (depth : Nat) : PathBuf := ⟨.root, List.replicate depth (.normal "d"), .plain⟩

def deepRequest : AstGrepRequest := ⟨"/d", "$A", none, none⟩

theorem deep_returned : grepDir .quiet wholeLibrary deepDisk readGate deepRequest =
    some (.ok ⟨"mixed", [], false⟩) := by
  decide

theorem deep_listed : ∀ depth < 12, ("d", true) ∈ entries deepDisk (deepPath depth) := by
  decide

/-- The file stands under every directory above it. -/
theorem deep_under {above : Nat} (inside : above ≤ 11) :
    Under deepDisk (deepPath (12 - above)) ((deepPath 12).child "a.py") := by
  induction above with
  | zero => exact .here (by decide)
  | succ above ih =>
      apply Under.deeper (deep_listed (12 - (above + 1)) (by omega)) (by decide)
      have next : (deepPath (12 - (above + 1))).child "d" = deepPath (12 - above) := by
        have one : 12 - above = 12 - (above + 1) + 1 := by omega
        rw [one, deepPath, deepPath, PathBuf.child, List.replicate_succ']
      rw [next]
      exact ih (by omega)

theorem deep_wanted : Wanted .quiet wholeLibrary deepDisk deepRequest
    ((deepPath 12).child "a.py") := by
  have root : PathBuf.ofText deepRequest.path = deepPath (12 - 11) := by decide
  refine ⟨?_, by decide, by decide⟩
  rw [root]
  exact deep_under (Nat.le_refl 11)

/-- A file deeper than the walk is missed without a word. -/
theorem deep_file_missed : ¬∀ (host : Host) (library : AstLibrary) (disk : Disk)
    (gate : CapabilityGate) (req : AstGrepRequest) (result : AstGrepResult),
    grepDir host library disk gate req = some (.ok result) →
      Honest host library disk req result := by
  intro all
  obtain ⟨files, -, -, members, reported⟩ :=
    all .quiet wholeLibrary deepDisk readGate deepRequest _ deep_returned rfl
  have member := (members _).mpr deep_wanted
  have none := List.flatMap_eq_nil_iff.mp (List.forall₂_nil_right_iff.mp reported) _ member
  exact deep_wanted.2.2 (List.map_eq_nil_iff.mp none)

end Complete

end Daemon.AstOps
