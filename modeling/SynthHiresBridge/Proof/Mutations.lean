import SynthHiresBridge.Daemon.LspOps
import SynthHiresBridge.Proof.Confinement

namespace Daemon

open Posix FileSystem

namespace FsOps

def uniqueTmp (moment : Moment) (path : PathBuf) : PathBuf :=
  path.withExtension ("synthhires-tmp-" ++ moment.uuid)

/-- An atomic write changes nothing, leaves its sibling behind, or replaces the entry of its
path. -/
theorem writeViaUniqueTmp_cases (moment : Moment) (fs after : FileSystem) (path : String)
    (bytes : List UInt8) (outcome : Except DaemonError Unit)
    (done : writeViaUniqueTmp moment fs path bytes = (outcome, after)) :
    after = fs ∨
      (∃ sibling, fs.lookup sibling = none ∧
        after.entryOf (uniqueTmp moment (.ofText path)) = .ok sibling ∧
        ∀ location, location ≠ sibling → after.lookup location = fs.lookup location) ∨
      ∃ entry, Replaced fs after (.ofText path) entry (.file bytes) := by
  unfold writeViaUniqueTmp at done
  cases made : fs.createNew ((PathBuf.ofText path).withExtension
      ("synthhires-tmp-" ++ moment.uuid)) bytes with
  | error _ =>
      simp only [made, Prod.mk.injEq] at done
      exact .inl done.2.symm
  | ok created =>
      obtain ⟨sibling, missing, still, lookup, seen⟩ := created_stands fs created _ bytes made
      simp only [made, seen] at done
      cases moved : created.rename ((PathBuf.ofText path).withExtension
          ("synthhires-tmp-" ++ moment.uuid)) (.ofText path) with
      | error _ =>
          simp only [moved, Prod.mk.injEq] at done
          obtain rfl := done.2
          refine .inr (.inl ⟨sibling, missing, still, fun location other => ?_⟩)
          rw [lookup, if_neg other]
      | ok renamed =>
          simp only [moved, Prod.mk.injEq] at done
          obtain rfl := done.2
          exact .inr (.inr (replaced_of_createNew fs created renamed _ _ bytes made moved))

end FsOps

/-- A mutation works on a location under a path when the entry of the path, before or after, stands
at or above the location. -/
def Reaches (before after : FileSystem) (path : PathBuf) (location : Location) : Prop :=
  ∃ entry, (before.entryOf path = .ok entry ∨ after.entryOf path = .ok entry) ∧ entry <+: location

/-- A mutation is sanctioned when every file it changes is reached under a path that passed the
check of real places. -/
def Sanctioned (gate : CapabilityGate) (capability : String) (before after : FileSystem)
    (path : PathBuf) (spare : Location → Prop) : Prop :=
  ∀ location, FileChanged before after location → ¬ spare location →
    gate.checkPathReal before capability path = .allow ∧ Reaches before after path location

theorem Sanctioned.of_addsDirs {before after : FileSystem} (adds : AddsDirs before after)
    (gate : CapabilityGate) (capability : String) (path : PathBuf) (spare : Location → Prop) :
    Sanctioned gate capability before after path spare :=
  fun location changed _ => absurd changed (adds location)

/-- A replaced file is reached under its path, also when directories were made for it. -/
theorem reaches_of_replaced (before made after : FileSystem) (path : PathBuf) (entry : Location)
    (bytes : List UInt8) (upper : made = before ∨ ∃ place, MadeDir before made path.above place)
    (replaced : Replaced made after path entry (.file bytes)) :
    Reaches before after path entry := by
  refine ⟨entry, ?_, List.prefix_rfl⟩
  rcases upper with rfl | ⟨place, upper⟩
  · exact .inl replaced.stands
  · cases standing : made.lookup entry with
    | none =>
        refine .inr (entryOf_mono (Extends.covers ?_) replaced.cwd path entry replaced.stands)
        intro location node present
        rw [replaced.lookup, if_neg, present]
        rintro rfl
        rw [standing] at present
        cases present
    | some node =>
        obtain ⟨plain, name, named⟩ := named_of_plain made path entry replaced.stands replaced.free
        have stands := replaced.stands
        rw [entryOf_named made path name plain named, upper.container] at stands
        obtain rfl : place ++ [name] = entry := by simpa [Except.map] using stands
        refine .inl ?_
        rw [entryOf_named before path name plain named, upper.unchanged name (by simp [standing])]
        rfl

namespace FileOp

def capability : FileOp → String
  | .write _ => "desktop.fs.write"
  | .patch _ => "desktop.fs.write"
  | .delete _ => "desktop.fs.delete"

/-- The fresh sibling of an atomic write is no file of its own. -/
def spare (op : FileOp) (moment : Moment) (before after : FileSystem) (location : Location) : Prop :=
  before.lookup location = none ∧
    after.entryOf (FsOps.uniqueTmp moment (.ofText op.path)) = .ok location

/-- An atomic write after directories were made is sanctioned by the check of its path. -/
theorem sanctioned_of_writeViaUniqueTmp (gate : CapabilityGate) (capability : String)
    (moment : Moment) (fs made after : FileSystem) (path : String) (bytes : List UInt8)
    (outcome : Except DaemonError Unit)
    (done : FsOps.writeViaUniqueTmp moment made path bytes = (outcome, after))
    (allowed : gate.checkPathReal fs capability (.ofText path) = .allow)
    (adds : AddsDirs fs made)
    (upper : made = fs ∨ ∃ place, MadeDir fs made (PathBuf.ofText path).above place) :
    Sanctioned gate capability fs after (.ofText path) fun location =>
      fs.lookup location = none ∧
        after.entryOf (FsOps.uniqueTmp moment (.ofText path)) = .ok location := by
  intro location changed kept
  have later := adds.changed location changed
  refine ⟨allowed, ?_⟩
  rcases FsOps.writeViaUniqueTmp_cases moment made after path bytes outcome done with
    rfl | ⟨sibling, missing, stands, others⟩ | ⟨entry, replaced⟩
  · exact absurd rfl later.1
  · by_cases own : location = sibling
    · subst own
      exact absurd ⟨adds.missing location missing, stands⟩ kept
    · exact absurd (others location own).symm later.1
  · have own : location = entry := by
      by_contra other
      exact later.1 (by rw [replaced.lookup, if_neg other])
    rw [own]
    exact reaches_of_replaced fs made after _ entry bytes upper replaced

/-- A removal changes entries at or below the entry of its path. -/
theorem reaches_of_removed (fs after : FileSystem) (path : PathBuf) (entry location : Location)
    (stands : fs.entryOf path = .ok entry)
    (others : ∀ location, ¬ entry <+: location → after.lookup location = fs.lookup location)
    (changed : FileChanged fs after location) : Reaches fs after path location := by
  refine ⟨entry, .inl stands, ?_⟩
  by_contra other
  exact changed.1 (others location other).symm

theorem reaches_of_removeTree (fs : FileSystem) (path : PathBuf) (entry location : Location)
    (stands : fs.entryOf path = .ok entry) (nested : entry ≠ [])
    (changed : FileChanged fs (fs.removeTree entry) location) :
    Reaches fs (fs.removeTree entry) path location := by
  refine reaches_of_removed fs _ path entry location stands ?_ changed
  intro other outside
  rw [lookup_removeTree fs entry other nested, if_neg]
  rwa [List.isPrefixOf_iff_prefix]

theorem reaches_of_removeDirAll (fs : FileSystem) (path : PathBuf) (location : Location)
    (changed : FileChanged fs (fs.removeDirAll path).2 location) :
    Reaches fs (fs.removeDirAll path).2 path location := by
  have ended := fs.removeDirAll_case path
  generalize fs.removeDirAll path = result at ended changed
  cases ended with
  | refused _ => exact absurd rfl changed.1
  | removed entry stands _ nested =>
      exact reaches_of_removeTree fs path entry location stands nested changed
  | emptied entry stands _ =>
      refine reaches_of_removed fs _ path entry location stands ?_ changed
      intro other outside
      rw [lookup_removeChildren, if_neg]
      simp [List.isPrefixOf_iff_prefix, outside]

theorem reaches_of_removeFile (fs after : FileSystem) (path : PathBuf) (location : Location)
    (done : fs.removeFile path = .ok after) (changed : FileChanged fs after location) :
    Reaches fs after path location := by
  obtain ⟨entry, stands, -, nested, rfl⟩ := fs.removeFile_ok after path done
  exact reaches_of_removeTree fs path entry location stands nested changed

theorem checkPathReal_of_gateForPath (gate : CapabilityGate) (fs : FileSystem)
    (capability path : String) (mutates : capability ≠ "desktop.fs.read")
    (passed : FsOps.gateForPath gate fs capability path = .ok ()) :
    gate.checkPathReal fs capability (.ofText path) = .allow := by
  rwa [FsOps.gateForPath_ok_iff, if_neg mutates] at passed

theorem write_sanctioned (moment : Moment) (gate : CapabilityGate) (fs : FileSystem)
    (req : FsWriteRequest) :
    Sanctioned gate "desktop.fs.write" fs (FsOps.write moment gate fs req).2 (.ofText req.path)
      (spare (.write req) moment fs (FsOps.write moment gate fs req).2) := by
  unfold FsOps.write
  cases passed : FsOps.gateForPath gate fs "desktop.fs.write" req.path with
  | error _ => exact .of_addsDirs (.refl fs) _ _ _ _
  | ok _ =>
      have allowed := checkPathReal_of_gateForPath gate fs _ _ (by decide) passed
      have forward := (gate.checkPath_allow_iff _ _).mp
        (gate.checkPath_of_checkPathReal fs _ _ allowed)
      simp only
      split
      · exact .of_addsDirs (.refl fs) _ _ _ _
      · rcases (PathBuf.ofText req.path).parent_eq_none_or with orphan | parent
        · rw [orphan]
          exact .of_addsDirs (.refl fs) _ _ _ _
        · rw [parent]
          have adds : AddsDirs fs (fs.createDirAll (PathBuf.ofText req.path).above).2 :=
            createDirAllFrom_addsDirs fs _ _
          cases created : fs.createDirAll (PathBuf.ofText req.path).above with
          | mk outcome made =>
              rw [created] at adds
              cases outcome with
              | error _ =>
                  simp only [created]
                  exact .of_addsDirs adds _ _ _ _
              | ok _ =>
                  simp only [created]
                  have upper := createDirAll_above fs made _ forward.2.1 created
                  cases wrote : FsOps.writeViaUniqueTmp moment made req.path
                      (Text.encode req.content) with
                  | mk outcome written =>
                      have sanctioned := sanctioned_of_writeViaUniqueTmp gate _ moment fs made
                        written req.path _ outcome wrote allowed adds upper
                      cases outcome with
                      | error _ => exact sanctioned
                      | ok _ =>
                          simp only
                          cases written.read (.ofText req.path) <;> exact sanctioned

theorem patch_sanctioned (host : Host) (moment : Moment) (gate : CapabilityGate)
    (fs : FileSystem) (req : FsPatchRequest) :
    Sanctioned gate "desktop.fs.write" fs (FsOps.patch host moment gate fs req).2
      (.ofText req.path)
      (spare (.patch req) moment fs (FsOps.patch host moment gate fs req).2) := by
  unfold FsOps.patch
  cases passed : FsOps.gateForPath gate fs "desktop.fs.write" req.path with
  | error _ => exact .of_addsDirs (.refl fs) _ _ _ _
  | ok _ =>
      have allowed := checkPathReal_of_gateForPath gate fs _ _ (by decide) passed
      simp only
      split
      · exact .of_addsDirs (.refl fs) _ _ _ _
      · cases fs.read (.ofText req.path) with
        | error _ => exact .of_addsDirs (.refl fs) _ _ _ _
        | ok original =>
            simp only
            cases patchedContent : FsOps.patchedContent host original req.edits with
            | error _ => exact .of_addsDirs (.refl fs) _ _ _ _
            | ok patched =>
                simp only
                cases wrote : FsOps.writeViaUniqueTmp moment fs req.path
                    (Text.encode patched.1) with
                | mk outcome written =>
                    have sanctioned := sanctioned_of_writeViaUniqueTmp gate _ moment fs fs
                      written req.path _ outcome wrote allowed (.refl fs) (.inl rfl)
                    cases outcome with
                    | error _ => exact sanctioned
                    | ok _ =>
                        simp only
                        cases written.read (.ofText req.path) <;> exact sanctioned

/-- The removal of a delete that meets no directory. -/
def unlink (fs : FileSystem) (path : PathBuf) : Except DaemonError Unit × FileSystem :=
  match fs.removeFile path with
  | .error errno => (.error (.ofErrno errno), fs)
  | .ok removed => (.ok (), removed)

theorem delete_sanctioned (gate : CapabilityGate) (fs : FileSystem) (req : FsDeleteRequest)
    (spare : Location → Prop) :
    Sanctioned gate "desktop.fs.delete" fs (FsOps.delete gate fs req).2 (.ofText req.path)
      spare := by
  unfold FsOps.delete
  cases passed : FsOps.gateForPath gate fs "desktop.fs.delete" req.path with
  | error _ => exact .of_addsDirs (.refl fs) _ _ _ _
  | ok _ =>
      have allowed := checkPathReal_of_gateForPath gate fs _ _ (by decide) passed
      have unlinked : Sanctioned gate "desktop.fs.delete" fs (unlink fs (.ofText req.path)).2
          (.ofText req.path) spare := by
        unfold unlink
        cases gone : fs.removeFile (.ofText req.path) with
        | error _ => exact .of_addsDirs (.refl fs) _ _ _ _
        | ok removed =>
            exact fun location changed _ =>
              ⟨allowed, reaches_of_removeFile fs removed _ location gone changed⟩
      simp only
      cases fs.metadata (.ofText req.path) with
      | error _ => exact .of_addsDirs (.refl fs) _ _ _ _
      | ok node =>
          cases node with
          | file _ => exact unlinked
          | symlink _ => exact unlinked
          | dir =>
              simp only
              have sanctioned : Sanctioned gate "desktop.fs.delete" fs
                  (fs.removeDirAll (.ofText req.path)).2 (.ofText req.path) spare :=
                fun location changed _ => ⟨allowed, reaches_of_removeDirAll fs _ location changed⟩
              cases emptied : fs.removeDirAll (.ofText req.path) with
              | mk outcome removed =>
                  rw [emptied] at sanctioned
                  cases outcome <;> exact sanctioned

/-- Every mutation behind the second check is sanctioned, also when it fails. -/
theorem run_sanctioned (op : FileOp) (host : Host) (moment : Moment) (gate : CapabilityGate)
    (fs : FileSystem) :
    Sanctioned gate op.capability fs (op.run host moment gate fs).2 (.ofText op.path)
      (op.spare moment fs (op.run host moment gate fs).2) := by
  cases op with
  | write req => exact write_sanctioned moment gate fs req
  | patch req => exact patch_sanctioned host moment gate fs req
  | delete req => exact delete_sanctioned gate fs req _

end FileOp

/-- One rewrite of an edit replaces a file through the sibling with a fixed name. -/
structure Rewrite where
  before : FileSystem
  path : PathBuf
  bytes : List UInt8

namespace Rewrite

def after (rewrite : Rewrite) : FileSystem :=
  (replaceViaTmp rewrite.before rewrite.path rewrite.bytes).2

/-- Nothing stands under the fixed name. -/
def TmpFree (rewrite : Rewrite) : Prop :=
  ∀ entry, rewrite.before.entryOf (replaceTmp rewrite.path) = .ok entry →
    rewrite.before.lookup entry = none

/-- The fixed name is clear when it is free or when the path itself has that name and is a file. -/
def Clear (rewrite : Rewrite) : Prop :=
  ∀ entry, rewrite.before.entryOf (replaceTmp rewrite.path) = .ok entry →
    rewrite.before.lookup entry = none ∨
      rewrite.before.entryOf rewrite.path = .ok entry ∧
        ∃ bytes, rewrite.before.lookup entry = some (.file bytes)

/-- An idle rewrite cannot write under the fixed name, or it writes the bytes a file holds already
and renames the path to itself. -/
def Idle (rewrite : Rewrite) : Prop :=
  ∀ place, rewrite.before.createTarget (replaceTmp rewrite.path) = .ok place →
    rewrite.before.lookup place = some .dir ∨
      rewrite.before.entryOf rewrite.path = rewrite.before.entryOf (replaceTmp rewrite.path) ∧
        rewrite.before.lookup place = some (.file rewrite.bytes)

/-- A settled path names a directory or a file that holds the bytes already. -/
def Settled (rewrite : Rewrite) : Prop :=
  ∀ entry, rewrite.before.entryOf rewrite.path = .ok entry →
    rewrite.before.lookup entry = some .dir ∨
      rewrite.before.lookup entry = some (.file rewrite.bytes)

/-- A rewrite is sanctioned when it changes nothing but the file of its path, and that only behind
the check of real places. -/
def Sanctioned (rewrite : Rewrite) (gate : CapabilityGate) : Prop :=
  ∀ location, FileChanged rewrite.before rewrite.after location →
    gate.checkPathReal rewrite.before "desktop.fs.write" rewrite.path = .allow ∧
      rewrite.before.entryOf rewrite.path = .ok location

/-- A rewrite is confined when it changes nothing but the file of its path, and that only when it is
allowed to. -/
def Confined (rewrite : Rewrite) (allowed : Prop) : Prop :=
  ∀ location, FileChanged rewrite.before rewrite.after location →
    allowed ∧ rewrite.before.entryOf rewrite.path = .ok location

/-- A rewrite under a free sibling name replaces the entry of its path. -/
theorem after_replaced (rewrite : Rewrite) (free : rewrite.TmpFree) (entry : Location)
    (stands : rewrite.before.entryOf rewrite.path = .ok entry)
    (plain : rewrite.before.lookup entry ≠ some .dir) :
    Replaced rewrite.before rewrite.after rewrite.path entry (.file rewrite.bytes) := by
  obtain ⟨fs, path, bytes⟩ := rewrite
  simp only [TmpFree, after, replaceViaTmp] at *
  obtain ⟨bare, name, named⟩ := named_of_plain fs path entry stands plain
  obtain ⟨tmp_plain, ⟨tmp_name, tmp_named⟩, siblings⟩ :=
    path.withExtension_named "synthhires-tmp" name named
  obtain ⟨beside, tmp_stands⟩ : ∃ beside, fs.entryOf (replaceTmp path) = .ok beside := by
    rw [entryOf_named fs path name bare named, ← container_congr fs siblings] at stands
    rw [replaceTmp, entryOf_named fs _ tmp_name tmp_plain tmp_named]
    cases held : fs.container (path.withExtension "synthhires-tmp") with
    | error _ => rw [held] at stands; cases stands
    | ok above => exact ⟨above ++ [tmp_name], rfl⟩
  have missing := free beside tmp_stands
  have fits := puttable_of_entryOf fs _ beside tmp_stands (by simp [missing])
  have more := put_extends fs beside (.file bytes) missing fits
  have cwd := put_cwd fs beside (.file bytes)
  have wrote := writeFile_of_free fs (replaceTmp path) beside bytes tmp_stands missing
  have source := entryOf_mono more.covers cwd _ beside tmp_stands
  have target := entryOf_mono more.covers cwd path entry stands
  have solid : (fs.put beside (.file bytes)).lookup entry ≠ some .dir := by
    rw [lookup_put fs beside _ fits]
    split
    · simp
    · exact plain
  obtain ⟨renamed, moved⟩ : ∃ renamed,
      (fs.put beside (.file bytes)).rename (replaceTmp path) path = .ok renamed := by
    unfold rename
    rw [source, target]
    simp only [Except.bind, lookup_put fs beside _ fits, if_true]
    rw [lookup_put fs beside _ fits] at solid
    rw [if_neg solid]
    split <;> exact ⟨_, rfl⟩
  rw [wrote]
  simp only [moved]
  have created := createNew_of_writeFile fs _ (replaceTmp path) bytes free wrote
  obtain ⟨other, replaced⟩ := replaced_of_createNew fs _ renamed path _ bytes created moved
  obtain rfl : other = entry := Except.ok.inj (replaced.stands.symm.trans stands)
  exact replaced

/-- A rewrite under a free sibling name changes nothing when its path names no entry to replace. -/
theorem after_unchanged (rewrite : Rewrite) (free : rewrite.TmpFree)
    (blocked : ∀ entry, rewrite.before.entryOf rewrite.path = .ok entry →
      rewrite.before.lookup entry = some .dir) (location : Location) :
    rewrite.after.lookup location = rewrite.before.lookup location := by
  obtain ⟨fs, path, bytes⟩ := rewrite
  simp only [TmpFree, after, replaceViaTmp] at *
  cases wrote : fs.writeFile (replaceTmp path) bytes with
  | error _ => rfl
  | ok written =>
      have created := createNew_of_writeFile fs written (replaceTmp path) bytes free wrote
      simp only
      cases moved : written.rename (replaceTmp path) path with
      | ok renamed =>
          obtain ⟨entry, replaced⟩ := replaced_of_createNew fs written renamed path _ bytes created
            moved
          exact absurd (blocked entry replaced.stands) replaced.free
      | error _ =>
          obtain ⟨beside, stands, missing, fits, rfl⟩ := createNew_ok fs written _ bytes created
          have still := entryOf_mono (put_extends fs beside (.file bytes) missing fits).covers
            (put_cwd fs beside _) _ beside stands
          have removed : (fs.put beside (.file bytes)).removeFile (replaceTmp path) =
              .ok ((fs.put beside (.file bytes)).removeTree beside) := by
            rw [removeFile, still]
            simp [Except.bind, lookup_put fs beside _ fits]
          simp only [removed]
          rw [lookup_removeTree_plain _ beside location fits.1
            (by simp [lookup_put fs beside _ fits]), lookup_put fs beside _ fits]
          by_cases own : location = beside
          · rw [if_pos own, own, missing]
          · rw [if_neg own, if_neg own]

/-- A path leads into scope when its real place is in scope or an approval names the path. -/
def LeadsIntoScope (rewrite : Rewrite) (gate : CapabilityGate) : Prop :=
  ∃ real, rewrite.before.realAncestor rewrite.path = some real ∧
    (gate.oneShot rewrite.path = true ∨ gate.InScope rewrite.before real)

/-- A rewrite under a free sibling name is confined exactly when it is allowed or its path is
settled. -/
theorem confined_iff_of_free (rewrite : Rewrite) (allowed : Prop) (free : rewrite.TmpFree) :
    rewrite.Confined allowed ↔ allowed ∨ rewrite.Settled := by
  by_cases target : ∃ entry, rewrite.before.entryOf rewrite.path = .ok entry ∧
      rewrite.before.lookup entry ≠ some .dir
  · obtain ⟨entry, stands, plain⟩ := target
    have replaced := rewrite.after_replaced free entry stands plain
    constructor
    · intro confined
      by_cases same : rewrite.before.lookup entry = some (.file rewrite.bytes)
      · refine .inr fun other lands => .inr ?_
        obtain rfl : other = entry := Except.ok.inj (lands.symm.trans stands)
        exact same
      · refine .inl (confined entry ?_).1
        unfold FileChanged
        rw [replaced.lookup, if_pos rfl]
        exact ⟨same, by simp⟩
    · intro condition location changed
      have own : location = entry := by
        by_contra other
        exact changed.1 (by rw [replaced.lookup, if_neg other])
      rcases condition with granted | settled
      · exact ⟨granted, own ▸ stands⟩
      · rcases settled entry stands with dir | same
        · exact absurd dir plain
        · refine absurd ?_ changed.1
          rw [own, replaced.lookup, if_pos rfl, same]
  · have blocked : ∀ entry, rewrite.before.entryOf rewrite.path = .ok entry →
        rewrite.before.lookup entry = some .dir := by
      intro entry stands
      by_contra plain
      exact target ⟨entry, stands, plain⟩
    constructor
    · exact fun _ => .inr fun entry stands => .inl (blocked entry stands)
    · exact fun _ location changed =>
        absurd (rewrite.after_unchanged free blocked location).symm changed.1

/-- An entry under the fixed name is gone after it was renamed away or cleaned up. -/
theorem after_taken (rewrite : Rewrite) (written : FileSystem) (beside : Location) (node : Node)
    (wrote : rewrite.before.writeFile (replaceTmp rewrite.path) rewrite.bytes = .ok written)
    (stands : rewrite.before.entryOf (replaceTmp rewrite.path) = .ok beside)
    (present : rewrite.before.lookup beside = some node) (solid : node ≠ .dir)
    (other : rewrite.before.entryOf rewrite.path ≠ .ok beside) :
    rewrite.after.lookup beside = none := by
  unfold after replaceViaTmp
  simp only [wrote]
  obtain ⟨fs, path, bytes⟩ := rewrite
  simp only at *
  obtain ⟨place, aimed, fits, unlinked, rfl⟩ := writeFile_ok fs written _ bytes wrote
  have more := put_covers fs place bytes fits unlinked
  have cwd := put_cwd fs place (.file bytes)
  have source := entryOf_mono more cwd _ beside stands
  obtain ⟨kept, held, plain⟩ : ∃ kept, (fs.put place (.file bytes)).lookup beside = some kept ∧
      kept ≠ .dir := by
    rcases more beside node present with same | ⟨old, new, rfl, same⟩
    · exact ⟨node, same, solid⟩
    · exact ⟨.file new, same, by simp⟩
  have nested : beside ≠ [] :=
    (puttable_of_entryOf _ _ beside source (by simpa [held] using plain)).1
  cases moved : (fs.put place (.file bytes)).rename (replaceTmp path) path with
  | ok renamed =>
      obtain ⟨old, moving, new, left, there, unlike, lands, free, rfl⟩ :=
        rename_ok _ renamed _ path moved
      obtain rfl : beside = old := Except.ok.inj (source.symm.trans left)
      have apart : beside ≠ new := by
        rintro rfl
        obtain ⟨bare, name, named⟩ := named_of_plain _ path beside lands free
        obtain ⟨tmp_plain, ⟨tmp_name, tmp_named⟩, siblings⟩ :=
          path.withExtension_named "synthhires-tmp" name named
        rw [replaceTmp, entryOf_named fs _ tmp_name tmp_plain tmp_named,
          container_congr fs siblings] at stands
        cases upper : fs.container path with
        | error _ => rw [upper] at stands; cases stands
        | ok above =>
            have early : fs.entryOf path = .ok (above ++ [name]) := by
              rw [entryOf_named fs path name bare named, upper]
              rfl
            have later := entryOf_mono more cwd path _ early
            rw [lands] at later
            exact other (early.trans later.symm)
      rw [lookup_moved _ beside new moving unlike nested
        (puttable_of_entryOf _ path new lands free) there, if_neg apart, if_pos rfl]
  | error _ =>
      have removed : (fs.put place (.file bytes)).removeFile (replaceTmp path) =
          .ok ((fs.put place (.file bytes)).removeTree beside) := by
        rw [removeFile, source]
        cases kept with
        | dir => exact absurd rfl plain
        | file _ => simp [Except.bind, held]
        | symlink _ => simp [Except.bind, held]
      simp only [removed]
      rw [lookup_removeTree_plain _ beside beside nested (by simpa [held] using plain), if_pos rfl]

/-- A path that has the fixed name itself is written in place. -/
theorem after_own (rewrite : Rewrite) (written : FileSystem) (entry : Location) (node : Node)
    (wrote : rewrite.before.writeFile (replaceTmp rewrite.path) rewrite.bytes = .ok written)
    (stands : rewrite.before.entryOf (replaceTmp rewrite.path) = .ok entry)
    (own : rewrite.before.entryOf rewrite.path = .ok entry)
    (present : rewrite.before.lookup entry = some node) (solid : node ≠ .dir) :
    rewrite.after = written := by
  unfold after replaceViaTmp
  simp only [wrote]
  obtain ⟨fs, path, bytes⟩ := rewrite
  simp only at *
  obtain ⟨place, aimed, fits, unlinked, rfl⟩ := writeFile_ok fs written _ bytes wrote
  have more := put_covers fs place bytes fits unlinked
  have cwd := put_cwd fs place (.file bytes)
  have source := entryOf_mono more cwd _ entry stands
  have target := entryOf_mono more cwd _ entry own
  have same : (fs.put place (.file bytes)).rename (replaceTmp path) path =
      .ok (fs.put place (.file bytes)) := by
    rw [rename, source]
    simp only [Except.bind, target]
    rcases more entry node present with same | ⟨old, new, rfl, same⟩
    · cases node with
      | dir => exact absurd rfl solid
      | file _ => simp [same]
      | symlink _ => simp [same]
    · simp [same]
  rw [same]

/-- A rewrite that cannot write its sibling changes nothing. -/
theorem idle_of_unwritten (rewrite : Rewrite) (allowed : Prop)
    (failed : ∀ written,
      rewrite.before.writeFile (replaceTmp rewrite.path) rewrite.bytes ≠ .ok written) :
    rewrite.Idle ∧ rewrite.Confined allowed := by
  constructor
  · intro place aimed
    by_contra busy
    refine failed (rewrite.before.put place (.file rewrite.bytes)) ?_
    rw [writeFile, aimed]
    simp only [Except.bind]
    split
    · rename_i dir
      exact absurd (.inl dir) busy
    · rfl
  · intro location changed
    have same : rewrite.after = rewrite.before := by
      unfold after replaceViaTmp
      cases wrote : rewrite.before.writeFile (replaceTmp rewrite.path) rewrite.bytes with
      | error _ => rfl
      | ok written => exact absurd wrote (failed written)
    rw [FileChanged, same] at changed
    exact absurd rfl changed.1

/-- A rewrite under a free name is not idle once it writes. -/
theorem busy_of_free (rewrite : Rewrite) (place : Location) (free : rewrite.TmpFree)
    (aimed : rewrite.before.createTarget (replaceTmp rewrite.path) = .ok place)
    (fits : rewrite.before.Puttable place) : ¬ rewrite.Idle := by
  intro idle
  have stays := createTarget_unlinked rewrite.before (replaceTmp rewrite.path)
    fun entry target stands => by simp [free entry stands]
  have missing := free place (stays.symm.trans aimed)
  rcases idle place aimed with dir | ⟨-, file⟩
  · exact fits.2.2 dir
  · simp [missing] at file

/-- A path that has the fixed name itself is confined when the file it leads to keeps its bytes, or
when it is a file that may be changed. -/
theorem confined_iff_of_own (rewrite : Rewrite) (allowed : Prop) (written : FileSystem)
    (entry : Location) (node : Node)
    (wrote : rewrite.before.writeFile (replaceTmp rewrite.path) rewrite.bytes = .ok written)
    (stands : rewrite.before.entryOf (replaceTmp rewrite.path) = .ok entry)
    (own : rewrite.before.entryOf rewrite.path = .ok entry)
    (present : rewrite.before.lookup entry = some node) (solid : node ≠ .dir) :
    rewrite.Confined allowed ↔ rewrite.Idle ∨ rewrite.Clear ∧ (allowed ∨ rewrite.Settled) := by
  obtain ⟨place, aimed, fits, unlinked, same⟩ := writeFile_ok _ written _ _ wrote
  have lookup : ∀ location, rewrite.after.lookup location =
      if location = place then some (.file rewrite.bytes) else rewrite.before.lookup location := by
    rw [rewrite.after_own written entry node wrote stands own present solid, same]
    exact lookup_put _ place _ fits
  constructor
  · intro confined
    by_cases held : rewrite.before.lookup place = some (.file rewrite.bytes)
    · refine .inl fun other lands => .inr ⟨own.trans stands.symm, ?_⟩
      obtain rfl : place = other := Except.ok.inj (aimed.symm.trans lands)
      exact held
    · obtain ⟨granted, reached⟩ := confined place (by
        unfold FileChanged
        rw [lookup, if_pos rfl]
        exact ⟨held, by simp⟩)
      obtain rfl : entry = place := Except.ok.inj (own.symm.trans reached)
      refine .inr ⟨fun other lands => .inr ?_, .inl granted⟩
      obtain rfl : entry = other := Except.ok.inj (stands.symm.trans lands)
      refine ⟨own, ?_⟩
      cases node with
      | dir => exact absurd rfl solid
      | file bytes => exact ⟨bytes, present⟩
      | symlink target => exact absurd present (unlinked target)
  · intro condition location changed
    have moved : location = place := by
      by_contra other
      exact changed.1 (by rw [lookup, if_neg other])
    have differs : rewrite.before.lookup place ≠ some (.file rewrite.bytes) := by
      intro held
      exact changed.1 (by rw [moved, lookup, if_pos rfl, held])
    rcases condition with idle | ⟨clear, condition⟩
    · rcases idle place aimed with dir | ⟨-, held⟩
      · exact absurd dir fits.2.2
      · exact absurd held differs
    · rcases clear entry stands with missing | ⟨-, bytes, file⟩
      · simp [missing] at present
      · have at_entry : place = entry := Except.ok.inj (aimed.symm.trans
          (createTarget_of_entry _ _ entry stands (by simp [file])))
        rw [at_entry] at moved differs
        rcases condition with granted | settled
        · exact ⟨granted, moved ▸ own⟩
        · rcases settled entry own with dir | held
          · simp [file] at dir
          · exact absurd held differs

/-- A rewrite is confined exactly when it is idle, or when its sibling name is clear and it is allowed
or its path is settled. -/
theorem rewrite_confined_iff (rewrite : Rewrite) (allowed : Prop) :
    rewrite.Confined allowed ↔ rewrite.Idle ∨ rewrite.Clear ∧ (allowed ∨ rewrite.Settled) := by
  by_cases wrote : ∃ written,
      rewrite.before.writeFile (replaceTmp rewrite.path) rewrite.bytes = .ok written
  · obtain ⟨written, wrote⟩ := wrote
    obtain ⟨place, aimed, fits, unlinked, -⟩ := writeFile_ok _ written _ _ wrote
    by_cases free : rewrite.TmpFree
    · rw [rewrite.confined_iff_of_free allowed free]
      have clear : rewrite.Clear := fun entry stands => .inl (free entry stands)
      simp [clear, rewrite.busy_of_free place free aimed fits]
    · obtain ⟨beside, stands, node, present⟩ : ∃ beside,
          rewrite.before.entryOf (replaceTmp rewrite.path) = .ok beside ∧
            ∃ node, rewrite.before.lookup beside = some node := by
        unfold TmpFree at free
        push Not at free
        obtain ⟨beside, stands, taken⟩ := free
        exact ⟨beside, stands, Option.ne_none_iff_exists'.mp taken⟩
      have solid : node ≠ .dir := by
        rintro rfl
        obtain rfl : place = beside := Except.ok.inj (aimed.symm.trans
          (createTarget_of_entry _ _ beside stands (by simp [present])))
        exact fits.2.2 present
      by_cases own : rewrite.before.entryOf rewrite.path = .ok beside
      · exact rewrite.confined_iff_of_own allowed written beside node wrote stands own present solid
      · -- The entry under the fixed name is lost, and it is not the file of the path.
        have gone := rewrite.after_taken written beside node wrote stands present solid own
        constructor
        · intro confined
          refine absurd (confined beside ?_).2 own
          unfold FileChanged
          rw [gone, present]
          simp
        · rintro (idle | ⟨clear, -⟩)
          · rcases idle place aimed with dir | ⟨both, -⟩
            · exact absurd dir fits.2.2
            · exact absurd (both.trans stands) own
          · rcases clear beside stands with missing | ⟨is_own, -⟩
            · simp [missing] at present
            · exact absurd is_own own
  · obtain ⟨idle, confined⟩ := rewrite.idle_of_unwritten allowed (not_exists.mp wrote)
    exact iff_of_true confined (.inl idle)

/-- A rewrite is sanctioned exactly when it is idle, or when its sibling name is clear and its path
passes the check of real places or is settled. -/
theorem sanctioned_iff (rewrite : Rewrite) (gate : CapabilityGate) :
    rewrite.Sanctioned gate ↔ rewrite.Idle ∨ rewrite.Clear ∧
      (gate.checkPathReal rewrite.before "desktop.fs.write" rewrite.path = .allow ∨
        rewrite.Settled) :=
  rewrite.rewrite_confined_iff _

end Rewrite

/-- Rewrites are linked when each one starts where the one before it ended. -/
def Linked (fs final : FileSystem) : List Rewrite → Prop
  | [] => fs = final
  | rewrite :: rest => rewrite.before = fs ∧ Linked rewrite.after final rest

theorem ensurePath_ok_iff (gate : CapabilityGate) (capability path : String) :
    ensurePath gate capability path = .ok () ↔
      gate.checkPath capability (.ofText path) = .allow := by
  unfold ensurePath
  cases gate.checkPath capability (.ofText path) <;> simp

namespace AstOps

/-- An edit rewrites its file when its plan has replacements. -/
def rewrites (host : Host) (gate : CapabilityGate) (fs : FileSystem) (req : AstEditRequest) :
    List Rewrite :=
  match plan host gate fs req with
  | .error _ => []
  | .ok plan => if plan.replacements = 0 then [] else [⟨fs, .ofText req.path, plan.out⟩]

theorem edit_linked (host : Host) (gate : CapabilityGate) (fs : FileSystem)
    (req : AstEditRequest) :
    Linked fs (edit host gate fs req).2 (rewrites host gate fs req) := by
  unfold edit rewrites
  cases plan host gate fs req with
  | error _ => rfl
  | ok plan =>
      simp only
      by_cases none : plan.replacements = 0
      · simp [none, Linked]
      · rw [if_neg none, if_neg none]
        refine ⟨rfl, ?_⟩
        simp only [Linked, Rewrite.after]
        cases replaceViaTmp fs (.ofText req.path) plan.out with
        | mk outcome written =>
            cases outcome with
            | error fault => cases fault <;> rfl
            | ok _ =>
                simp only
                cases written.read (.ofText req.path) <;> rfl

theorem rewrites_path (host : Host) (gate : CapabilityGate) (fs : FileSystem)
    (req : AstEditRequest) (rewrite : Rewrite) (member : rewrite ∈ rewrites host gate fs req) :
    rewrite.path = .ofText req.path := by
  unfold rewrites at member
  split at member
  · simp at member
  · split at member
    · simp at member
    · simp only [List.mem_singleton] at member
      rw [member]

theorem rewrites_lexical (host : Host) (gate : CapabilityGate) (fs : FileSystem)
    (req : AstEditRequest) (rewrite : Rewrite) (member : rewrite ∈ rewrites host gate fs req) :
    gate.checkPath "desktop.fs.write" rewrite.path = .allow := by
  rw [rewrites_path host gate fs req rewrite member]
  unfold rewrites plan at member
  cases passed : ensurePath gate "desktop.fs.write" req.path with
  | error _ => simp [passed, Except.bind] at member
  | ok _ => exact (ensurePath_ok_iff gate _ _).mp passed

end AstOps

namespace LspOps

/-- The files are rewritten in turn until one of them fails. -/
def rewrites (fs : FileSystem) : List PlannedFile → List Rewrite
  | [] => []
  | file :: rest =>
      let rewrite : Rewrite := ⟨fs, .ofText file.path, rewritten file⟩
      rewrite :: match replaceViaTmp fs rewrite.path rewrite.bytes with
        | (.error _, _) => []
        | (.ok _, written) => match written.read rewrite.path with
          | .error _ => []
          | .ok back => if back = rewrite.bytes then rewrites written rest else []

theorem rewriteFiles_linked (fs : FileSystem) (filesChanged : Nat) (files : List PlannedFile) :
    Linked fs (rewriteFiles fs filesChanged files).2 (rewrites fs files) := by
  induction files generalizing fs filesChanged with
  | nil => rfl
  | cons file rest ih =>
      unfold rewriteFiles rewrites
      refine ⟨rfl, ?_⟩
      simp only [Rewrite.after]
      cases replaceViaTmp fs (.ofText file.path) (rewritten file) with
      | mk outcome written =>
          cases outcome with
          | error fault => cases fault <;> rfl
          | ok _ =>
              simp only
              cases written.read (.ofText file.path) with
              | error _ => rfl
              | ok back =>
                  by_cases verified : back = rewritten file
                  · simp only [verified, if_true]
                    exact ih written (filesChanged + 1)
                  · simp only [verified, if_false]
                    rfl

theorem rewrites_path (fs : FileSystem) (files : List PlannedFile) (rewrite : Rewrite)
    (member : rewrite ∈ rewrites fs files) : ∃ file ∈ files, rewrite.path = .ofText file.path := by
  induction files generalizing fs with
  | nil => simp [rewrites] at member
  | cons file rest ih =>
      unfold rewrites at member
      rcases List.mem_cons.mp member with rfl | later
      · exact ⟨file, List.mem_cons_self .., rfl⟩
      · have inside : ∃ written, rewrite ∈ rewrites written rest := by
          split at later
          · simp at later
          · split at later
            · simp at later
            · split at later
              · exact ⟨_, later⟩
              · simp at later
        obtain ⟨written, inside⟩ := inside
        obtain ⟨other, listed, same⟩ := ih written inside
        exact ⟨other, List.mem_cons_of_mem _ listed, same⟩

/-- Every planned file passed the check of its spelling. -/
theorem planned_lexical (gate : CapabilityGate) (fs : FileSystem)
    (targets : List (String × List Json.Value)) (files : List PlannedFile)
    (planned : targets.mapM (planFile gate fs) = .ok files) (file : PlannedFile)
    (member : file ∈ files) :
    gate.checkPath "desktop.fs.write" (.ofText file.path) = .allow := by
  induction targets generalizing files with
  | nil =>
      obtain rfl : [] = files := Except.ok.inj planned
      simp at member
  | cons target rest ih =>
      rw [List.mapM_cons] at planned
      cases first : planFile gate fs target with
      | error _ => rw [first] at planned; cases planned
      | ok head =>
          cases others : rest.mapM (planFile gate fs) with
          | error _ => rw [first, others] at planned; cases planned
          | ok tail =>
              rw [first, others] at planned
              obtain rfl : head :: tail = files := Except.ok.inj planned
              rcases List.mem_cons.mp member with rfl | later
              · unfold planFile at first
                cases named : uriToPath target.1 with
                | none => simp [named] at first
                | some path =>
                    simp only [named] at first
                    cases passed : ensurePath gate "desktop.fs.write" path with
                    | error _ => simp [passed, Except.bind] at first
                    | ok _ =>
                        have own : file.path = path := by
                          cases source : readToString fs path with
                          | error _ => simp [passed, source, Except.bind] at first
                          | ok text =>
                              simp only [passed, source, Except.bind] at first
                              cases ranged : target.2.mapM (rangeEdit target.1 text) with
                              | error _ => rw [ranged] at first; cases first
                              | ok ranges =>
                                  rw [ranged] at first
                                  rw [← Except.ok.inj first]
                        rw [own]
                        exact (ensurePath_ok_iff gate _ _).mp passed
              · exact ih tail others later

/-- A rename rewrites the files of the edit its server answers with. -/
def renameRewrites (gate : CapabilityGate) (fs : FileSystem) (req : LspRenameRequest)
    (reply : Except DaemonError (String × String × Json.Value)) : List Rewrite :=
  match ensurePath gate "desktop.fs.write" req.path, reply with
  | .ok _, .ok (_, _, edit) => match plannedFiles gate fs edit with
      | .error _ => []
      | .ok files => rewrites fs files
  | _, _ => []

theorem applyWorkspaceEdit_linked (gate : CapabilityGate) (fs : FileSystem) (edit : Json.Value) :
    Linked fs (applyWorkspaceEdit gate fs edit).2 (match plannedFiles gate fs edit with
      | .error _ => []
      | .ok files => rewrites fs files) := by
  unfold applyWorkspaceEdit
  cases plannedFiles gate fs edit with
  | error _ => rfl
  | ok files =>
      have linked := rewriteFiles_linked fs 0 files
      simp only
      cases ran : rewriteFiles fs 0 files with
      | mk outcome written =>
          rw [ran] at linked
          cases outcome <;> exact linked

theorem rename_linked (gate : CapabilityGate) (fs : FileSystem) (req : LspRenameRequest)
    (reply : Except DaemonError (String × String × Json.Value)) :
    Linked fs (rename gate fs req reply).2 (renameRewrites gate fs req reply) := by
  unfold rename renameRewrites
  cases ensurePath gate "desktop.fs.write" req.path with
  | error _ => rfl
  | ok _ =>
      cases reply with
      | error _ => rfl
      | ok answer =>
          obtain ⟨language, server, edit⟩ := answer
          have linked := applyWorkspaceEdit_linked gate fs edit
          cases ran : applyWorkspaceEdit gate fs edit with
          | mk outcome written =>
              rw [ran] at linked
              cases edit with
              | null => rfl
              | _ => cases outcome <;> simpa [ran] using linked

theorem renameRewrites_lexical (gate : CapabilityGate) (fs : FileSystem) (req : LspRenameRequest)
    (reply : Except DaemonError (String × String × Json.Value)) (rewrite : Rewrite)
    (member : rewrite ∈ renameRewrites gate fs req reply) :
    gate.checkPath "desktop.fs.write" rewrite.path = .allow := by
  unfold renameRewrites at member
  split at member
  · rename_i edit _
    cases planned : plannedFiles gate fs edit with
    | error _ => simp [planned] at member
    | ok files =>
        rw [planned] at member
        obtain ⟨file, listed, own⟩ := rewrites_path fs files rewrite member
        rw [own]
        unfold plannedFiles at planned
        simp only at planned
        split at planned
        · cases planned
        · cases every : (workspaceEditTargets edit).mapM (planFile gate fs) with
          | error _ => rw [every] at planned; cases planned
          | ok all =>
              rw [every] at planned
              simp only [Except.bind] at planned
              split at planned
              · cases planned
              · obtain rfl : all = files := Except.ok.inj planned
                exact planned_lexical gate fs _ all every file listed
  · simp at member

end LspOps

/-- The operations that change the disk after a check of the spelling alone. -/
inductive Editor where
  | astEdit (req : AstEditRequest)
  | rename (req : LspRenameRequest) (reply : Except DaemonError (String × String × Json.Value))

namespace Editor

def run (editor : Editor) (host : Host) (gate : CapabilityGate) (fs : FileSystem) : FileSystem :=
  match editor with
  | .astEdit req => (AstOps.edit host gate fs req).2
  | .rename req reply => (LspOps.rename gate fs req reply).2

def rewrites (editor : Editor) (host : Host) (gate : CapabilityGate) (fs : FileSystem) :
    List Rewrite :=
  match editor with
  | .astEdit req => AstOps.rewrites host gate fs req
  | .rename req reply => LspOps.renameRewrites gate fs req reply

theorem run_linked (editor : Editor) (host : Host) (gate : CapabilityGate) (fs : FileSystem) :
    Linked fs (editor.run host gate fs) (editor.rewrites host gate fs) := by
  cases editor with
  | astEdit req => exact AstOps.edit_linked host gate fs req
  | rename req reply => exact LspOps.rename_linked gate fs req reply

theorem rewrites_lexical (editor : Editor) (host : Host) (gate : CapabilityGate)
    (fs : FileSystem) (rewrite : Rewrite) (member : rewrite ∈ editor.rewrites host gate fs) :
    gate.checkPath "desktop.fs.write" rewrite.path = .allow := by
  cases editor with
  | astEdit req => exact AstOps.rewrites_lexical host gate fs req rewrite member
  | rename req reply => exact LspOps.renameRewrites_lexical gate fs req reply rewrite member

end Editor

/-- Every write, patch and delete is sanctioned. The changes of the two editors are those of their
rewrites, and these are sanctioned exactly when each one is idle, or has a clear sibling name and a
path that leads into scope or is settled. -/
theorem mutations_sanctioned_iff (host : Host) (moment : Moment) (gate : CapabilityGate)
    (fs : FileSystem) :
    (∀ op : FileOp,
      Sanctioned gate op.capability fs (op.run host moment gate fs).2 (.ofText op.path)
        (op.spare moment fs (op.run host moment gate fs).2)) ∧
    ∀ editor : Editor,
      Linked fs (editor.run host gate fs) (editor.rewrites host gate fs) ∧
      ((∀ rewrite ∈ editor.rewrites host gate fs, rewrite.Sanctioned gate) ↔
        ∀ rewrite ∈ editor.rewrites host gate fs, rewrite.Idle ∨
          rewrite.Clear ∧ (rewrite.LeadsIntoScope gate ∨ rewrite.Settled)) := by
  refine ⟨fun op => op.run_sanctioned host moment gate fs,
    fun editor => ⟨editor.run_linked host gate fs, ?_⟩⟩
  refine forall_congr' fun rewrite => forall_congr' fun member => ?_
  rw [rewrite.sanctioned_iff gate, CapabilityGate.checkPathReal_allow_iff,
    and_iff_right (editor.rewrites_lexical host gate fs rewrite member)]
  rfl

/-- A tree has an allowed directory, and a link leads from it to a file outside. -/
def leaky : FileSystem :=
  (((FileSystem.empty.put ["w"] .dir).put ["etc"] .dir).put ["etc", "x"] (.file [97])).put
    ["w", "out"] (.symlink (.ofText "/etc"))

/-- The server answers a rename with an edit of the file behind the link. -/
def leakyEdit : Json.Value :=
  .object [("changes", .object [("file:///w/out/x", .array [.object [("newText", .string "b")]])])]

def leakyPlan : LspOps.PlannedFile := ⟨"/w/out/x", "a", [⟨0, 0, "b"⟩]⟩

theorem leaky_planned : LspOps.plannedFiles FileOp.workspaceGate leaky leakyEdit =
    .ok [leakyPlan] := by decide +kernel

/-- A rename changes a file outside the allowed directory through the link. -/
theorem mutations_unsanctioned :
    ¬ ∀ (editor : Editor) (host : Host) (gate : CapabilityGate) (fs : FileSystem),
      ∀ rewrite ∈ editor.rewrites host gate fs, rewrite.Sanctioned gate := by
  intro claim
  have listed : (⟨leaky, .ofText "/w/out/x", LspOps.rewritten leakyPlan⟩ : Rewrite) ∈
      (Editor.rename ⟨"/w/a", 0, 0, "b", none⟩ (.ok ("", "", leakyEdit))).rewrites .quiet
        FileOp.workspaceGate leaky := by
    have passed : ensurePath FileOp.workspaceGate "desktop.fs.write" "/w/a" = .ok () := by
      decide
    simp only [Editor.rewrites, LspOps.renameRewrites, passed, leaky_planned]
    exact List.mem_cons_self ..
  have sanctioned := claim _ .quiet FileOp.workspaceGate leaky _ listed ["etc", "x"]
    (by unfold FileChanged; decide +kernel)
  exact absurd sanctioned.1 (by decide +kernel)

end Daemon
