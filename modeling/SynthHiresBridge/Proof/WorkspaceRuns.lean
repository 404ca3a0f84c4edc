import Mathlib.Data.List.Dedup
import SynthHiresBridge.Proof.AtomicWriters
import SynthHiresBridge.Proof.WorkspaceEdits

namespace Daemon

open Posix FileSystem

/-- A replacement over a sibling name that is free or names a plain file. -/
theorem replaceViaTmp_ok {fs : FileSystem} {path : PathBuf} {entry beside : Location}
    (target : Stands fs path entry) (bytes : List UInt8)
    (source : fs.entryOf (replaceTmp path) = .ok beside) (solid : fs.lookup beside ≠ some .dir)
    (plain : ∀ link, fs.lookup beside ≠ some (.symlink link)) : ∃ after,
      replaceViaTmp fs path bytes = (.ok (), after) ∧ after.cwd = fs.cwd ∧ ∀ location,
        after.lookup location = if location = entry then some (.file bytes)
          else if location = beside then none else fs.lookup location := by
  have aimed := createTarget_of_entry fs (replaceTmp path) beside source plain
  have wrote : fs.writeFile (replaceTmp path) bytes = .ok (fs.put beside (.file bytes)) := by
    rw [writeFile, aimed]
    simp only [Except.bind]
  have fits := puttable_of_entryOf fs (replaceTmp path) beside source solid
  have lookup := lookup_put fs beside (.file bytes) fits
  have tmp := written_stands source wrote
  have still := target.written wrote
  have present : (fs.put beside (.file bytes)).lookup beside = some (.file bytes) := by
    rw [lookup, if_pos rfl]
  have moved := rename_of_entries tmp.lands present (by simp) still.lands still.solid
  have done : replaceViaTmp fs path bytes = (.ok (), if beside = entry then
      fs.put beside (.file bytes)
    else ((fs.put beside (.file bytes)).put entry (.file bytes)).removeTree beside) := by
    rw [replaceViaTmp, wrote]
    simp only [moved]
  refine ⟨_, done, ?_, fun location => ?_⟩
  · split_ifs
    · exact put_cwd fs beside _
    · rw [removeTree_cwd, put_cwd, put_cwd]
  · rw [lookup_moved _ beside entry (.file bytes) (by simp) fits.1
      (puttable_of_entryOf _ path entry still.lands still.solid) present, lookup]
    split_ifs <;> rfl

namespace LspOps

/-- Every temporary name is free or names a plain file, and it names a target only as its own. -/
def Steady (fs : FileSystem) (paths : List PathBuf) : Prop :=
  ∀ path ∈ paths, ∀ beside, fs.entryOf (replaceTmp path) = .ok beside →
    fs.lookup beside ≠ some .dir ∧ (∀ link, fs.lookup beside ≠ some (.symlink link)) ∧
      ∀ other ∈ paths, fs.entryOf other = .ok beside → fs.entryOf path = .ok beside

/-- A location is a target or the temporary name of one. -/
def Spot (fs : FileSystem) (paths : List PathBuf) (location : Location) : Prop :=
  ∃ path ∈ paths, fs.entryOf path = .ok location ∨ fs.entryOf (replaceTmp path) = .ok location

/-- A run so far changed targets and temporary names only. -/
structure Amid (before now : FileSystem) (paths : List PathBuf) : Prop where
  cwd : now.cwd = before.cwd
  others : ∀ location, ¬Spot before paths location → now.lookup location = before.lookup location
  targets : ∀ path ∈ paths, ∀ entry, before.entryOf path = .ok entry →
    (now.lookup entry).isSome ∧ now.lookup entry ≠ some .dir
  siblings : ∀ path ∈ paths, ∀ beside, before.entryOf (replaceTmp path) = .ok beside →
    now.lookup beside ≠ some .dir ∧ ∀ link, now.lookup beside ≠ some (.symlink link)

section Run

variable {before now : FileSystem} {paths : List PathBuf}
  (reads : ∀ path ∈ paths, ∃ bytes, before.read path = .ok bytes) (steady : Steady before paths)

include reads in
theorem target_stands {path : PathBuf} (member : path ∈ paths) {entry : Location}
    (lands : before.entryOf path = .ok entry) : Stands before path entry := by
  obtain ⟨bytes, read⟩ := reads path member
  obtain ⟨own, target⟩ := Stands.of_read read
  obtain rfl : entry = own := Except.ok.inj (lands.symm.trans target.lands)
  exact target

include reads steady in
theorem Amid.start : Amid before before paths where
  cwd := rfl
  others := fun _ _ => rfl
  targets := fun _ member _ lands =>
    let target := target_stands reads member lands
    ⟨target.present, target.solid⟩
  siblings := fun path member beside lands =>
    let plain := steady path member beside lands
    ⟨plain.1, plain.2.1⟩

include reads steady in
/-- Neither a target nor a temporary name is on the way to a directory. -/
theorem Amid.walks (amid : Amid before now paths) : now.KeepsWalks before := by
  refine keepsWalks_of_entries amid.others ?_ ?_
  · rintro location ⟨path, member, lands | lands⟩
    · exact (target_stands reads member lands).solid
    · exact (steady path member location lands).1
  · rintro above name target ⟨path, member, lands | lands⟩ link
    · obtain ⟨bytes, read⟩ := reads path member
      exact leads_of_entry read lands link
    · exact absurd link ((steady path member _ lands).2.1 target)

include reads steady in
/-- Every target still stands at its entry. -/
theorem Amid.stands (amid : Amid before now paths) {path : PathBuf} (member : path ∈ paths)
    {entry : Location} (lands : before.entryOf path = .ok entry) : Stands now path entry := by
  obtain ⟨present, solid⟩ := amid.targets path member entry lands
  have free := (target_stands reads member lands).solid
  exact ⟨entryOf_walks (amid.walks reads steady) amid.cwd path entry lands free, present, solid⟩

include reads steady in
/-- A target that is replaced has its bytes, its temporary name is free, and all else stays. -/
theorem Amid.step (amid : Amid before now paths) {path : PathBuf} (member : path ∈ paths)
    {entry : Location} (lands : before.entryOf path = .ok entry) (bytes : List UInt8) : ∃ after,
      replaceViaTmp now path bytes = (.ok (), after) ∧ Amid before after paths ∧
        after.read path = .ok bytes ∧ after.lookup entry = some (.file bytes) ∧
        ∀ other ∈ paths, ∀ spot, before.entryOf other = .ok spot → spot ≠ entry →
          after.lookup spot = now.lookup spot := by
  have target := amid.stands reads steady member lands
  have own := target_stands reads member lands
  obtain ⟨beside, source⟩ : ∃ beside, before.entryOf (replaceTmp path) = .ok beside :=
    entryOf_sibling own.lands own.solid "synthhires-tmp"
  obtain ⟨free, -, apart⟩ := steady path member beside source
  have tmp := entryOf_walks (amid.walks reads steady) amid.cwd _ beside source free
  obtain ⟨solid, plain⟩ := amid.siblings path member beside source
  obtain ⟨after, done, cwd, lookup⟩ := replaceViaTmp_ok target bytes tmp solid plain
  have kept : ∀ other ∈ paths, ∀ spot, before.entryOf other = .ok spot → spot ≠ entry →
      after.lookup spot = now.lookup spot := by
    intro other inside spot stands foreign
    have away : spot ≠ beside := by
      rintro rfl
      exact foreign (Except.ok.inj ((apart other inside stands).symm.trans lands))
    rw [lookup, if_neg foreign, if_neg away]
  have stays : Amid before after paths := by
    refine ⟨cwd.trans amid.cwd, ?_, ?_, ?_⟩
    · intro location free
      have foreign : location ≠ entry := fun same => free ⟨path, member, .inl (same ▸ lands)⟩
      have away : location ≠ beside := fun same => free ⟨path, member, .inr (same ▸ source)⟩
      rw [lookup, if_neg foreign, if_neg away]
      exact amid.others location free
    · intro other inside spot stands
      by_cases same : spot = entry
      · rw [lookup, if_pos same]
        exact ⟨rfl, by simp⟩
      · rw [kept other inside spot stands same]
        exact amid.targets other inside spot stands
    · intro other inside spot stands
      rw [lookup]
      split_ifs
      · exact ⟨by simp, by simp⟩
      · exact ⟨by simp, by simp⟩
      · exact amid.siblings other inside spot stands
  have own_bytes : after.lookup entry = some (.file bytes) := by
    rw [lookup, if_pos rfl]
  have real := canonicalize_of_entry after path entry _
    (stays.stands reads steady member lands).lands own_bytes (by simp)
  have reread : after.read path = .ok bytes := by
    rw [FileSystem.read, metadata, real]
    simp [Except.bind, own_bytes]
  exact ⟨after, done, stays, reread, own_bytes, kept⟩

include reads steady in
/-- A run over steady targets changes every file, and targets of other files stay. -/
theorem Amid.run {files : List PlannedFile} (amid : Amid before now paths) (changed : Nat)
    (targets : ∀ file ∈ files, PathBuf.ofText file.path ∈ paths) : ∃ after,
      rewriteFiles now changed files = (.ok (changed + files.length), after) ∧
        Amid before after paths ∧
        (∀ path ∈ paths, ∀ spot, before.entryOf path = .ok spot →
          (∀ file ∈ files, before.entryOf (.ofText file.path) ≠ .ok spot) →
            after.lookup spot = now.lookup spot) ∧
        ((files.Pairwise fun first second =>
            before.entryOf (.ofText first.path) ≠ before.entryOf (.ofText second.path)) →
          ∀ file ∈ files, ∀ entry, before.entryOf (.ofText file.path) = .ok entry →
            after.lookup entry = some (.file (rewritten file))) := by
  induction files generalizing now changed with
  | nil => exact ⟨now, rfl, amid, fun _ _ _ _ _ => rfl, fun _ => List.forall_mem_nil _⟩
  | cons file rest ih =>
      obtain ⟨member, later⟩ := List.forall_mem_cons.mp targets
      obtain ⟨bytes, read⟩ := reads _ member
      obtain ⟨entry, target⟩ := Stands.of_read read
      obtain ⟨middle, done, stays, reread, own, kept⟩ :=
        amid.step reads steady member target.lands (rewritten file)
      obtain ⟨after, ran, stayed, frame, contents⟩ := ih stays (changed + 1) later
      refine ⟨after, ?_, stayed, ?_, ?_⟩
      · rw [rewriteFiles, done]
        simp only [reread, if_true, ran]
        rw [List.length_cons, Nat.add_assoc, Nat.add_comm 1]
      · intro path inside spot lands away
        obtain ⟨here, others⟩ := List.forall_mem_cons.mp away
        rw [frame path inside spot lands others]
        refine kept path inside spot lands fun same => here ?_
        rw [target.lands, same]
      · intro distinct
        obtain ⟨apart, others⟩ := List.pairwise_cons.mp distinct
        refine List.forall_mem_cons.mpr ⟨fun spot lands => ?_, contents others⟩
        obtain rfl : spot = entry := Except.ok.inj (lands.symm.trans target.lands)
        rw [frame _ member spot lands, own]
        intro other inside same
        exact apart other inside (lands.trans same.symm)

end Run

/-- The directory entry that a target leads to. -/
def targetEntry (fs : FileSystem) (target : String × List Json.Value) : Option Location :=
  (uriToPath target.1).bind fun path => (fs.entryOf (.ofText path)).toOption

/-- The entries of the targets of an edit. -/
def targetEntries (fs : FileSystem) (edit : Json.Value) : List Location :=
  (workspaceEditTargets edit).filterMap (targetEntry fs)

/-- All the edits of a file, from every target that leads to it. -/
def editsAt (fs : FileSystem) (edit : Json.Value) (entry : Location) (source : String) :
    List (Splice.Edit UInt8) :=
  ((workspaceEditTargets edit).filter fun target => targetEntry fs target = some entry).flatMap
    fun target => target.2.map (lspEdit source)

/-- A workspace edit is applied without a panic, every target has all its edits at once, and the
files and the edits are counted. -/
structure AppliesAtOnce (gate : CapabilityGate) (fs : FileSystem) (edit : Json.Value) : Prop where
  calm : ∀ files, plannedFiles gate fs edit = .ok files →
    ∀ file ∈ files, (rewrittenChecked file).isSome
  texts : ∀ counts after, applyWorkspaceEdit gate fs edit = (.ok counts, after) →
    ∀ target ∈ workspaceEditTargets edit, ∀ path source entry, uriToPath target.1 = some path →
      readToString fs path = .ok source → fs.entryOf (.ofText path) = .ok entry →
        after.read (.ofText path) =
          .ok (Splice.together (editsAt fs edit entry source) (Text.encode source))
  counts : ∀ counts after, applyWorkspaceEdit gate fs edit = (.ok counts, after) →
    counts = ((targetEntries fs edit).dedup.length,
      ((workspaceEditTargets edit).map fun target => target.2.length).sum)

/-- The positions of an edit have columns in the lines of the files that they are read in. -/
def PositionsInLine (fs : FileSystem) (edit : Json.Value) : Prop :=
  ∀ target ∈ workspaceEditTargets edit, ∀ path source, uriToPath target.1 = some path →
    readToString fs path = .ok source → ∀ item ∈ target.2, EditInLine source item

/-- The targets of planned files lead to entries, one for each file. -/
theorem targetEntries_of_planned {gate : CapabilityGate} {fs : FileSystem}
    {targets : List (String × List Json.Value)} {files : List PlannedFile}
    (planned : List.Forall₂ (Planned gate fs) targets files) : ∃ entries,
      List.Forall₂ (fun file entry => Stands fs (.ofText file.path) entry) files entries ∧
        targets.filterMap (targetEntry fs) = entries := by
  induction planned with
  | nil => exact ⟨[], .nil, rfl⟩
  | @cons target _ _ _ here _ ih =>
      obtain ⟨entries, stand, same⟩ := ih
      obtain ⟨bytes, read⟩ := read_of_readToString here.source
      obtain ⟨entry, stands⟩ := Stands.of_read read
      refine ⟨entry :: entries, .cons stands stand, ?_⟩
      have found : targetEntry fs target = some entry := by
        rw [targetEntry, here.named, Option.bind_some, stands.lands]
        rfl
      rw [List.filterMap_cons_some found, same]

theorem ranges_of_planned {gate : CapabilityGate} {fs : FileSystem}
    {targets : List (String × List Json.Value)} {files : List PlannedFile}
    (planned : List.Forall₂ (Planned gate fs) targets files) :
    (files.flatMap fun file => file.ranges).length =
      (targets.map fun target => target.2.length).sum := by
  induction planned with
  | nil => rfl
  | cons here _ ih =>
      rw [List.flatMap_cons, List.length_append, ih, List.map_cons, List.sum_cons,
        here.ranges.length_eq]

/-- Files whose entries differ are told apart by their paths. -/
theorem pairwise_of_nodup {fs : FileSystem} {files : List PlannedFile} {entries : List Location}
    (stand : List.Forall₂ (fun file entry => Stands fs (.ofText file.path) entry) files entries)
    (distinct : entries.Nodup) : files.Pairwise fun first second =>
      fs.entryOf (.ofText first.path) ≠ fs.entryOf (.ofText second.path) := by
  induction stand with
  | nil => exact .nil
  | cons here later ih =>
      obtain ⟨fresh, others⟩ := List.nodup_cons.mp distinct
      refine List.pairwise_cons.mpr ⟨fun other member same => fresh ?_, ih others⟩
      obtain ⟨entry, held, stands⟩ := later.exists_right member
      rw [here.lands, stands.lands] at same
      rwa [Except.ok.inj same]

/-- One target alone leads to an entry that is listed once. -/
theorem filter_of_nodup {Item Name : Type*} [DecidableEq Name] {items : List Item}
    {name : Item → Option Name} (distinct : (items.filterMap name).Nodup) {item : Item}
    (member : item ∈ items) {own : Name} (named : name item = some own) :
    (items.filter fun other => name other = some own) = [item] := by
  induction items with
  | nil => cases member
  | cons first rest ih =>
      rcases List.mem_cons.mp member with rfl | later
      · rw [List.filterMap_cons_some named] at distinct
        have others : (rest.filter fun other => name other = some own) = [] := by
          refine List.filter_eq_nil_iff.mpr fun other held same => ?_
          exact (List.nodup_cons.mp distinct).1
            (List.mem_filterMap.mpr ⟨other, held, of_decide_eq_true same⟩)
        rw [List.filter_cons, if_pos (decide_eq_true named), others]
      · have fresh : name first ≠ some own := by
          intro same
          rw [List.filterMap_cons_some same] at distinct
          exact (List.nodup_cons.mp distinct).1 (List.mem_filterMap.mpr ⟨item, later, named⟩)
        have shorter : (rest.filterMap name).Nodup :=
          distinct.sublist ((List.sublist_cons_self first rest).filterMap name)
        rw [List.filter_cons, if_neg (by simpa using fresh), ih shorter later]

/-- A workspace edit that is planned over steady targets is applied, and where no two targets lead
to one file each of them has its rewritten text. -/
theorem applyWorkspaceEdit_steady {gate : CapabilityGate} {fs : FileSystem} {edit : Json.Value}
    {files : List PlannedFile} (planned : plannedFiles gate fs edit = .ok files)
    (steady : Steady fs (targetPaths edit)) : ∃ after,
      applyWorkspaceEdit gate fs edit = (.ok ((targetEntries fs edit).length,
        ((workspaceEditTargets edit).map fun target => target.2.length).sum), after) ∧
      ((targetEntries fs edit).Nodup → ∀ file ∈ files,
        after.read (.ofText file.path) = .ok (rewritten file)) := by
  obtain ⟨-, held, -⟩ := (plannedFiles_ok_iff gate fs edit files).mp planned
  obtain ⟨entries, stand, same⟩ := targetEntries_of_planned held
  obtain ⟨paths, read⟩ := targets_of_planned held
  have targets : ∀ file ∈ files, PathBuf.ofText file.path ∈ targetPaths edit := by
    intro file member
    rw [targetPaths, paths]
    exact List.mem_map_of_mem member
  have reads : ∀ path ∈ targetPaths edit, ∃ bytes, fs.read path = .ok bytes := by
    intro path member
    rw [targetPaths, paths] at member
    obtain ⟨file, inside, rfl⟩ := List.mem_map.mp member
    exact read file inside
  obtain ⟨after, ran, stays, -, contents⟩ := (Amid.start reads steady).run reads steady 0 targets
  refine ⟨after, ?_, fun distinct file member => ?_⟩
  · rw [applyWorkspaceEdit, planned]
    simp only [ran]
    rw [ranges_of_planned held, Nat.zero_add, targetEntries, same, stand.length_eq]
  · rw [targetEntries, same] at distinct
    obtain ⟨entry, -, target⟩ := stand.exists_right member
    have own := contents (pairwise_of_nodup stand distinct) file member entry target.lands
    have now := (stays.stands reads steady (targets file member) target.lands).lands
    have real := canonicalize_of_entry after _ entry _ now own (by simp)
    rw [FileSystem.read, metadata, real]
    simp [Except.bind, own]

/-- A target that alone leads to its file brings all the edits of the file. -/
theorem editsAt_of_nodup {gate : CapabilityGate} {fs : FileSystem} {edit : Json.Value}
    {target : String × List Json.Value} {file : PlannedFile} {entry : Location}
    (inLine : PositionsInLine fs edit) (distinct : (targetEntries fs edit).Nodup)
    (member : target ∈ workspaceEditTargets edit) (planned : Planned gate fs target file)
    (stands : fs.entryOf (.ofText file.path) = .ok entry) :
    editsAt fs edit entry file.source = file.edits := by
  have named : targetEntry fs target = some entry := by
    rw [targetEntry, planned.named, Option.bind_some, stands]
    rfl
  rw [editsAt, filter_of_nodup distinct member named, List.flatMap_singleton,
    planned.edits (inLine target member file.path file.source planned.named planned.source)]

/-- The source has two characters. -/
def twoChars : FileSystem :=
  (FileSystem.empty.put ["w"] .dir).put ["w", "a.rs"] (.file [97, 98])

def firstReplaced : Json.Value :=
  .object [("range", .object [("end", .object [("character", .number (.posInt 1))])]),
    ("newText", .string "X")]

def insertedFirst : Json.Value := .object [("newText", .string "Y")]

/-- The first character is replaced, and an insertion before it is listed later. -/
def lateInsertion : Json.Value :=
  .object [("changes", .object
    [("file:///w/a.rs", .array [firstReplaced, insertedFirst])])]

end LspOps

end Daemon
