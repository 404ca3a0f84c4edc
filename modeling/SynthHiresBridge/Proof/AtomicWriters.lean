import SynthHiresBridge.Daemon.DiskFaults
import SynthHiresBridge.Posix.Unlink
import SynthHiresBridge.Proof.WorkspacePlan

namespace Posix.FileSystem

/-- Two file systems differ at most in the entries of these paths. -/
def DiffersAt (before after : FileSystem) (paths : List PathBuf) : Prop :=
  ∀ location, (∀ path ∈ paths, before.entryOf path ≠ .ok location) →
    after.lookup location = before.lookup location

theorem DiffersAt.refl (fs : FileSystem) (paths : List PathBuf) : fs.DiffersAt fs paths :=
  fun _ _ => rfl

theorem differsAt_single {before after : FileSystem} {path : PathBuf} {entry : Location}
    (stands : before.entryOf path = .ok entry) : before.DiffersAt after [path] ↔
      ∀ location, location ≠ entry → after.lookup location = before.lookup location := by
  have others : ∀ location, (∀ path' ∈ [path], before.entryOf path' ≠ .ok location) ↔
      location ≠ entry := by
    intro location
    rw [List.forall_mem_singleton, stands, Ne, Except.ok.injEq, eq_comm]
  exact forall_congr' fun location => imp_congr_left (others location)

theorem Replaced.differsAt {before after : FileSystem} {path : PathBuf} {entry : Location}
    {node : Node} (replaced : Replaced before after path entry node) :
    before.DiffersAt after [path] := by
  rw [differsAt_single replaced.stands]
  intro location other
  rw [replaced.lookup, if_neg other]

/-- A rename moves an entry that is no directory over another one. -/
theorem rename_of_entries {fs : FileSystem} {source target : PathBuf} {old new : Location}
    {node : Node} (stands : fs.entryOf source = .ok old) (present : fs.lookup old = some node)
    (solid : node ≠ .dir) (lands : fs.entryOf target = .ok new)
    (free : fs.lookup new ≠ some .dir) : fs.rename source target =
      .ok (if old = new then fs else (fs.put new node).removeTree old) := by
  rw [rename, stands]
  simp only [Except.bind, present, lands, if_neg free]
  cases node with
  | dir => exact absurd rfl solid
  | file _ => split_ifs <;> rfl
  | symlink _ => split_ifs <;> rfl

theorem removeFile_of_entry {fs : FileSystem} {path : PathBuf} {entry : Location} {node : Node}
    (stands : fs.entryOf path = .ok entry) (present : fs.lookup entry = some node)
    (solid : node ≠ .dir) : fs.removeFile path = .ok (fs.removeTree entry) := by
  rw [removeFile, stands]
  simp only [Except.bind, present]

/-- The siblings of a named path stand in its directory. -/
theorem entryOf_sibling {fs : FileSystem} {path : PathBuf} {entry : Location}
    (stands : fs.entryOf path = .ok entry) (free : fs.lookup entry ≠ some .dir) (suffix : String) :
    ∃ sibling, fs.entryOf (path.withExtension suffix) = .ok sibling := by
  obtain ⟨plain, name, named⟩ := named_of_plain fs path entry stands free
  obtain ⟨bare, ⟨other, renamed⟩, siblings⟩ := path.withExtension_named suffix name named
  rw [entryOf_named fs path name plain named, ← container_congr fs siblings] at stands
  rw [entryOf_named fs _ other bare renamed]
  cases held : fs.container (path.withExtension suffix) with
  | error _ =>
      rw [held] at stands
      cases stands
  | ok above => exact ⟨above ++ [other], rfl⟩

end Posix.FileSystem

namespace Daemon

open Posix FileSystem

/-- A new file is left where it was made, unless every later step succeeds. -/
def DiskFaults.Settles (faults : DiskFaults) : Prop :=
  faults.writing = none ∧ faults.syncing = none ∧ faults.examining = none ∧ faults.moving = none

namespace FsOps

/-- An atomic write spares everything but its target: it makes no sibling, the sibling is the target
itself, or no step after the creation fails. -/
inductive Spared (faults : DiskFaults) (fs : FileSystem) (tmp path : PathBuf) : Prop where
  | refused (stops : faults.opening.isSome ∨
      ∀ entry, fs.entryOf tmp = .ok entry → fs.lookup entry ≠ none)
  | own (same : fs.entryOf tmp = fs.entryOf path)
  | settled (settles : faults.Settles) (entry : Location) (stands : fs.entryOf path = .ok entry)
      (free : fs.lookup entry ≠ some .dir)

theorem createNew_of_free {fs : FileSystem} {path : PathBuf} {entry : Location}
    (stands : fs.entryOf path = .ok entry) (missing : fs.lookup entry = none)
    (bytes : List UInt8) : fs.createNew path bytes = .ok (fs.put entry (.file bytes)) := by
  rw [createNew, stands]
  simp only [Except.bind, missing]

/-- A sibling that stays is spared only where it is the target. -/
theorem differsAt_created_iff {fs : FileSystem} {path : PathBuf} {sibling : Location}
    {bytes : List UInt8} (missing : fs.lookup sibling = none) (fits : fs.Puttable sibling) :
    fs.DiffersAt (fs.put sibling (.file bytes)) [path] ↔ fs.entryOf path = .ok sibling := by
  have lookup := lookup_put fs sibling (.file bytes) fits
  constructor
  · intro differs
    by_contra other
    have same := differs sibling (List.forall_mem_singleton.mpr other)
    rw [lookup, if_pos rfl, missing] at same
    cases same
  · intro own
    rw [differsAt_single own]
    intro location other
    rw [lookup, if_neg other]

/-- The ways in which an atomic write ends. -/
inductive WriteEnd (faults : DiskFaults) (fs : FileSystem) (tmp path : PathBuf)
    (bytes : List UInt8) : FileSystem → Prop where
  | refused (stops : faults.opening.isSome ∨ ∃ errno, fs.createNew tmp bytes = .error errno) :
      WriteEnd faults fs tmp path bytes fs
  | stuck (starts : faults.opening = none) (created : FileSystem)
      (made : fs.createNew tmp bytes = .ok created)
      (blocked : faults.Settles → ∃ errno, created.rename tmp path = .error errno) :
      WriteEnd faults fs tmp path bytes created
  | moved (settles : faults.Settles) (created renamed : FileSystem)
      (made : fs.createNew tmp bytes = .ok created)
      (moved : created.rename tmp path = .ok renamed) : WriteEnd faults fs tmp path bytes renamed

theorem writeViaUniqueTmpUnder_end (faults : DiskFaults) (moment : Moment) (fs : FileSystem)
    (path : String) (bytes : List UInt8) :
    WriteEnd faults fs ((PathBuf.ofText path).withExtension ("synthhires-tmp-" ++ moment.uuid))
      (.ofText path) (faults.landed bytes)
      (writeViaUniqueTmpUnder faults moment fs path bytes).2 := by
  unfold writeViaUniqueTmpUnder DiskFaults.write
  generalize (PathBuf.ofText path).withExtension ("synthhires-tmp-" ++ moment.uuid) = tmp
  cases opening : faults.opening with
  | some text => exact .refused (.inl (by rw [opening]; rfl))
  | none =>
      cases made : fs.createNew tmp (faults.landed bytes) with
      | error errno =>
          simp only [made]
          exact .refused (.inr ⟨errno, made⟩)
      | ok created =>
          have stuck : (faults.Settles → ∃ errno, created.rename tmp (.ofText path) = .error errno) →
              WriteEnd faults fs tmp (.ofText path) (faults.landed bytes) created :=
            .stuck opening created made
          obtain ⟨-, -, -, -, seen⟩ := created_stands fs created tmp _ made
          simp only [made]
          cases writing : faults.writing with
          | some stop => exact stuck fun settles => nomatch settles.1.symm.trans writing
          | none =>
              simp only
              cases syncing : faults.syncing with
              | some text => exact stuck fun settles => nomatch settles.2.1.symm.trans syncing
              | none =>
                  cases examining : faults.examining with
                  | some text =>
                      exact stuck fun settles => nomatch settles.2.2.1.symm.trans examining
                  | none =>
                      simp only [seen, DiskFaults.rename]
                      cases moving : faults.moving with
                      | some text =>
                          exact stuck fun settles => nomatch settles.2.2.2.symm.trans moving
                      | none =>
                          cases moved : created.rename tmp (.ofText path) with
                          | error errno => exact stuck fun _ => ⟨errno, moved⟩
                          | ok renamed =>
                              exact .moved ⟨writing, syncing, examining, moving⟩ created renamed
                                made moved

/-- An atomic write differs from before in its target alone exactly where it is spared. -/
theorem writeViaUniqueTmpUnder_differsAt_iff (faults : DiskFaults) (moment : Moment)
    (fs : FileSystem) (path : String) (bytes : List UInt8) :
    fs.DiffersAt (writeViaUniqueTmpUnder faults moment fs path bytes).2 [.ofText path] ↔
      Spared faults fs
        ((PathBuf.ofText path).withExtension ("synthhires-tmp-" ++ moment.uuid))
        (.ofText path) := by
  have ends := writeViaUniqueTmpUnder_end faults moment fs path bytes
  generalize (writeViaUniqueTmpUnder faults moment fs path bytes).2 = after at ends ⊢
  cases ends with
  | refused stops =>
      refine iff_of_true (.refl fs _) (.refused ?_)
      rcases stops with opening | ⟨errno, refused⟩
      · exact .inl opening
      · refine .inr fun entry stands missing => ?_
        rw [createNew_of_free stands missing] at refused
        cases refused
  | stuck starts created made blocked =>
      obtain ⟨sibling, stands, missing, fits, rfl⟩ := createNew_ok fs _ _ _ made
      rw [differsAt_created_iff missing fits]
      constructor
      · intro own
        exact .own (stands.trans own.symm)
      · intro spared
        cases spared with
        | refused stops =>
            rcases stops with stops | taken
            · rw [starts] at stops
              cases stops
            · exact absurd missing (taken sibling stands)
        | own same => exact same.symm.trans stands
        | settled settles entry lands free =>
            -- Nothing would have stopped the rename.
            obtain ⟨errno, refused⟩ := blocked settles
            have more :=
              (put_extends fs sibling (.file (faults.landed bytes)) missing fits).covers
            have cwd := put_cwd fs sibling (.file (faults.landed bytes))
            have lookup := lookup_put fs sibling (.file (faults.landed bytes)) fits
            have solid : (fs.put sibling (.file (faults.landed bytes))).lookup entry ≠
                some .dir := by
              rw [lookup]
              split_ifs
              · simp
              · exact free
            rw [rename_of_entries (entryOf_mono more cwd _ sibling stands)
              (by rw [lookup, if_pos rfl]) (by simp) (entryOf_mono more cwd _ entry lands)
              solid] at refused
            cases refused
  | moved settles created _ made moved =>
      obtain ⟨entry, replaced⟩ := replaced_of_createNew fs created after _ _ _ made moved
      exact iff_of_true replaced.differsAt (.settled settles entry replaced.stands replaced.free)

end FsOps

/-- A sibling stays behind where its write fails, and where its rename and its removal fail. -/
def DiskFaults.strands (faults : DiskFaults) : Bool :=
  faults.writing.isSome || (faults.moving.isSome && faults.removing.isSome)

/-- A replacement spares everything but its target: it writes nothing, its sibling has a free name
and does not stay, or its write is not seen outside the target and no other entry is taken away. -/
inductive Spared (faults : DiskFaults) (fs : FileSystem) (path : PathBuf) (bytes : List UInt8) :
    Prop where
  | refused (stops : faults.opening.isSome ∨
      ∀ place, fs.createTarget (replaceTmp path) = .ok place → fs.lookup place = some .dir)
  | fresh (cleared : faults.strands = false) (beside : Location)
      (stands : fs.entryOf (replaceTmp path) = .ok beside) (missing : fs.lookup beside = none)
  | unseen (stays : faults.strands = true ∨
      fs.entryOf (replaceTmp path) = fs.entryOf path) (place : Location)
      (aimed : fs.createTarget (replaceTmp path) = .ok place)
      (same : fs.entryOf path = .ok place ∨
        fs.lookup place = some (.file (faults.landed bytes)))

/-- A path has an entry that is no directory. -/
structure Stands (fs : FileSystem) (path : PathBuf) (entry : Location) : Prop where
  lands : fs.entryOf path = .ok entry
  present : (fs.lookup entry).isSome
  solid : fs.lookup entry ≠ some .dir

/-- A write under the sibling name keeps the entries, and a solid one stands there. -/
theorem written_stands {fs written : FileSystem} {path : PathBuf} {beside : Location}
    {bytes : List UInt8} (stands : fs.entryOf path = .ok beside)
    (wrote : fs.writeFile path bytes = .ok written) : Stands written path beside := by
  obtain ⟨place, aimed, fits, unlinked, rfl⟩ := writeFile_ok fs written path bytes wrote
  have more := put_covers fs place bytes fits unlinked
  have lookup := lookup_put fs place (.file bytes) fits
  refine ⟨entryOf_mono more (put_cwd fs place _) path beside stands, ?_, ?_⟩
  · by_cases own : beside = place
    · rw [lookup, if_pos own]
      rfl
    · rw [lookup, if_neg own]
      by_contra missing
      rw [Option.not_isSome_iff_eq_none] at missing
      have aims := createTarget_of_entry fs path beside stands (by simp [missing])
      exact own (Except.ok.inj (aims.symm.trans aimed))
  · rw [lookup]
    split_ifs with own
    · simp
    · intro dir
      have aims := createTarget_of_entry fs path beside stands (by simp [dir])
      exact own (Except.ok.inj (aims.symm.trans aimed))

/-- A write under the sibling name leaves the target standing. -/
theorem Stands.written {fs written : FileSystem} {path tmp : PathBuf} {entry : Location}
    {bytes : List UInt8} (stands : Stands fs path entry)
    (wrote : fs.writeFile tmp bytes = .ok written) : Stands written path entry := by
  obtain ⟨place, aimed, fits, unlinked, rfl⟩ := writeFile_ok fs written tmp bytes wrote
  have more := put_covers fs place bytes fits unlinked
  have lookup := lookup_put fs place (.file bytes) fits
  refine ⟨entryOf_mono more (put_cwd fs place _) path entry stands.lands, ?_, ?_⟩
  · rw [lookup]
    split_ifs
    · rfl
    · exact stands.present
  · rw [lookup]
    split_ifs
    · simp
    · exact stands.solid

/-- A rename of a standing sibling over a standing target. -/
theorem Stands.rename {fs : FileSystem} {tmp path : PathBuf} {beside entry : Location}
    (source : Stands fs tmp beside) (target : Stands fs path entry) :
    ∃ renamed, fs.rename tmp path = .ok renamed ∧ renamed.cwd = fs.cwd ∧
      (∀ location, location ≠ entry →
        renamed.lookup location = if location = beside then none else fs.lookup location) ∧
      (renamed.lookup entry).isSome ∧ renamed.lookup entry ≠ some .dir := by
  obtain ⟨node, present⟩ := Option.isSome_iff_exists.mp source.present
  have solid : node ≠ .dir := by
    rintro rfl
    exact source.solid present
  refine ⟨_, rename_of_entries source.lands present solid target.lands target.solid, ?_, ?_, ?_⟩
  · split_ifs
    · rfl
    · rw [removeTree_cwd, put_cwd]
  · intro location other
    rw [lookup_moved fs beside entry node solid
      (puttable_of_entryOf fs tmp beside source.lands source.solid).1
      (puttable_of_entryOf fs path entry target.lands target.solid) present, if_neg other]
  · rw [lookup_moved fs beside entry node solid
      (puttable_of_entryOf fs tmp beside source.lands source.solid).1
      (puttable_of_entryOf fs path entry target.lands target.solid) present, if_pos rfl]
    exact ⟨rfl, fun dir => solid (Option.some.inj dir)⟩

theorem Stands.removed {fs : FileSystem} {path : PathBuf} {entry : Location}
    (stands : Stands fs path entry) :
    fs.removeFile path = .ok (fs.removeTree entry) ∧ ∀ location,
      (fs.removeTree entry).lookup location =
        if location = entry then none else fs.lookup location := by
  obtain ⟨node, present⟩ := Option.isSome_iff_exists.mp stands.present
  have solid : node ≠ .dir := by
    rintro rfl
    exact stands.solid present
  refine ⟨removeFile_of_entry stands.lands present solid, fun location => ?_⟩
  exact lookup_removeTree_plain fs entry location
    (puttable_of_entryOf fs path entry stands.lands stands.solid).1 stands.solid

/-- Outside its target a replacement leaves what its write left, and its sibling is gone unless it
stays behind. -/
theorem replaceViaTmpUnder_lookup {faults : DiskFaults} {fs written : FileSystem} {path : PathBuf}
    {bytes : List UInt8} {entry beside : Location} (starts : faults.opening = none)
    (target : Stands fs path entry) (source : fs.entryOf (replaceTmp path) = .ok beside)
    (wrote : fs.writeFile (replaceTmp path) (faults.landed bytes) = .ok written)
    {location : Location} (other : location ≠ entry) :
    (replaceViaTmpUnder faults fs path bytes).2.lookup location =
      if faults.strands = false ∧ location = beside then none else written.lookup location := by
  have tmp := written_stands source wrote
  have still := target.written wrote
  unfold replaceViaTmpUnder DiskFaults.write DiskFaults.strands
  rw [starts, wrote]
  cases writing : faults.writing with
  | some stop => simp
  | none =>
      simp only [DiskFaults.rename, DiskFaults.removeFile]
      cases moving : faults.moving with
      | none =>
          obtain ⟨renamed, moved, -, others, -⟩ := tmp.rename still
          simp only [moved, others location other]
          simp
      | some text =>
          obtain ⟨removed, others⟩ := tmp.removed
          cases removing : faults.removing with
          | some reason => simp
          | none => simp [removed, others]

/-- A replacement that succeeds leaves its target standing. -/
theorem replaceViaTmpUnder_ok {faults : DiskFaults} {fs after : FileSystem} {path : PathBuf}
    {bytes : List UInt8} {entry : Location} (target : Stands fs path entry)
    (done : replaceViaTmpUnder faults fs path bytes = (.ok (), after)) :
    after.cwd = fs.cwd ∧ (after.lookup entry).isSome ∧ after.lookup entry ≠ some .dir := by
  obtain ⟨beside, source⟩ : ∃ beside, fs.entryOf (replaceTmp path) = .ok beside :=
    entryOf_sibling target.lands target.solid "synthhires-tmp"
  unfold replaceViaTmpUnder DiskFaults.write at done
  cases opening : faults.opening with
  | some text => simp [opening] at done
  | none =>
      cases wrote : fs.writeFile (replaceTmp path) (faults.landed bytes) with
      | error errno => simp [opening, wrote] at done
      | ok written =>
          cases writing : faults.writing with
          | some stop => simp [opening, wrote, writing] at done
          | none =>
              obtain ⟨renamed, moved, cwd, -, stays⟩ :=
                (written_stands source wrote).rename (target.written wrote)
              simp only [opening, wrote, writing, DiskFaults.rename] at done
              cases moving : faults.moving with
              | some text => simp [moving] at done
              | none =>
                  simp only [moving, moved, Prod.mk.injEq] at done
                  obtain rfl := done.2
                  obtain ⟨place, -, -, -, rfl⟩ := writeFile_ok fs written _ _ wrote
                  exact ⟨cwd.trans (put_cwd fs place _), stays⟩

/-- A replacement differs from before in its target alone exactly where it is spared. -/
theorem replaceViaTmpUnder_differsAt_iff {faults : DiskFaults} {fs : FileSystem} {path : PathBuf}
    {bytes : List UInt8} {entry : Location} (target : Stands fs path entry) :
    fs.DiffersAt (replaceViaTmpUnder faults fs path bytes).2 [path] ↔
      Spared faults fs path bytes := by
  by_cases stops : faults.opening.isSome ∨
      ∀ place, fs.createTarget (replaceTmp path) = .ok place → fs.lookup place = some .dir
  · have same : (replaceViaTmpUnder faults fs path bytes).2 = fs := by
      unfold replaceViaTmpUnder DiskFaults.write
      cases opening : faults.opening with
      | some text => rfl
      | none =>
          rw [opening, Option.isSome_none, Bool.false_eq_true, false_or] at stops
          cases wrote : fs.writeFile (replaceTmp path) (faults.landed bytes) with
          | error errno => rfl
          | ok written =>
              obtain ⟨place, aimed, fits, -, -⟩ := writeFile_ok fs written _ _ wrote
              exact absurd (stops place aimed) fits.2.2
    rw [same]
    exact iff_of_true (.refl fs _) (.refused stops)
  · rw [not_or, Bool.not_eq_true, Option.isSome_eq_false_iff, Option.isNone_iff_eq_none] at stops
    obtain ⟨starts, opens⟩ := stops
    push Not at opens
    obtain ⟨place, aimed, open_place⟩ := opens
    obtain ⟨beside, source⟩ : ∃ beside, fs.entryOf (replaceTmp path) = .ok beside :=
      entryOf_sibling target.lands target.solid "synthhires-tmp"
    have wrote : fs.writeFile (replaceTmp path) (faults.landed bytes) =
        .ok (fs.put place (.file (faults.landed bytes))) := by
      rw [writeFile, aimed]
      simp only [Except.bind]
    obtain ⟨other, aims, fits, -, -⟩ := writeFile_ok fs _ _ _ wrote
    obtain rfl : place = other := Except.ok.inj (aimed.symm.trans aims)
    rw [differsAt_single target.lands]
    have after := fun location (other : location ≠ entry) =>
      @replaceViaTmpUnder_lookup faults fs _ path bytes entry beside starts target source wrote
        location other
    simp only [lookup_put fs place _ fits] at after
    constructor
    · intro differs
      by_cases stays : faults.strands = true ∨ beside = entry
      · refine .unseen (stays.imp_right fun own => by rw [target.lands, ← own]; exact source) place
          aimed ?_
        by_cases own : place = entry
        · exact .inl (own ▸ target.lands)
        · refine .inr ?_
          have gone : ¬(faults.strands = false ∧ place = beside) := by
            rintro ⟨cleared, rfl⟩
            rcases stays with stays | here
            · rw [cleared] at stays
              cases stays
            · exact own here
          have same := differs place own
          rw [after place own, if_neg gone, if_pos rfl] at same
          exact same.symm
      · rw [not_or, Bool.not_eq_true] at stays
        refine .fresh stays.1 beside source ?_
        have same := differs beside stays.2
        rw [after beside stays.2, if_pos ⟨stays.1, rfl⟩] at same
        exact same.symm
    · intro spared location other
      rw [after location other]
      cases spared with
      | refused stops =>
          rcases stops with opening | dirs
          · rw [starts] at opening
            cases opening
          · exact absurd (dirs place aimed) open_place
      | fresh cleared sibling stands missing =>
          obtain rfl : beside = sibling := Except.ok.inj (source.symm.trans stands)
          have own := createTarget_of_entry fs _ beside source (by simp [missing])
          obtain rfl : place = beside := Except.ok.inj (aimed.symm.trans own)
          split_ifs with gone here
          · rw [gone.2, missing]
          · exact absurd ⟨cleared, here⟩ gone
          · rfl
      | unseen stays spot lands same =>
          obtain rfl : place = spot := Except.ok.inj (aimed.symm.trans lands)
          split_ifs with gone here
          · rcases stays with stays | own
            · rw [gone.1] at stays
              cases stays
            · rw [source, target.lands] at own
              exact absurd (gone.2.trans (Except.ok.inj own)) other
          · rcases same with own | held
            · rw [target.lands] at own
              exact absurd (here.trans (Except.ok.inj own).symm) other
            · rw [here, held]
          · rfl

/-- A path that was read has an entry that is no directory. -/
theorem Stands.of_read {fs : FileSystem} {path : PathBuf} {bytes : List UInt8}
    (reads : fs.read path = .ok bytes) : ∃ entry, Stands fs path entry := by
  have seen := metadata_of_read fs path bytes reads
  rw [metadata] at seen
  cases resolved : fs.canonicalize path with
  | error _ =>
      rw [resolved] at seen
      cases seen
  | ok real =>
      have file : fs.lookup real = some (.file bytes) := by
        rw [resolved] at seen
        simp only [Except.bind] at seen
        cases present : fs.lookup real with
        | none =>
            rw [present] at seen
            cases seen
        | some node =>
            rw [present] at seen
            rw [Except.ok.inj seen]
      by_cases followed : path.ending ≠ .plain ∨ path.fileName = none
      · have dir := canonicalize_followed_dir fs path real followed resolved
        rw [file] at dir
        cases dir
      · rw [not_or, not_not] at followed
        obtain ⟨name, named⟩ := Option.ne_none_iff_exists'.mp followed.2
        obtain ⟨entry, node, stands, present, own⟩ :=
          canonicalize_entry fs path name real followed.1 named resolved
        refine ⟨entry, stands, by simp [present], ?_⟩
        intro dir
        rw [present] at dir
        have same := own fun target => by rw [Option.some.inj dir]; simp
        rw [← same, file] at present
        rw [← present] at dir
        cases dir

theorem read_of_readToString {fs : FileSystem} {path source : String}
    (done : readToString fs path = .ok source) : ∃ bytes, fs.read (.ofText path) = .ok bytes := by
  rw [readToString] at done
  cases reads : fs.read (.ofText path) with
  | error errno =>
      rw [reads] at done
      cases done
  | ok bytes => exact ⟨bytes, rfl⟩

namespace AstOps

/-- A structural edit that writes spares everything but its file. -/
def SparedEdit (faults : DiskFaults) (host : Host) (gate : CapabilityGate) (fs : FileSystem)
    (req : AstEditRequest) : Prop :=
  ∀ planned, plan host gate fs req = .ok planned → planned.replacements ≠ 0 →
    Spared faults fs (.ofText req.path) planned.out

theorem read_of_plan {host : Host} {gate : CapabilityGate} {fs : FileSystem}
    {req : AstEditRequest} {planned : Plan} (done : plan host gate fs req = .ok planned) :
    ∃ bytes, fs.read (.ofText req.path) = .ok bytes := by
  rw [plan, Except.bind_ok_iff] at done
  obtain ⟨-, -, done⟩ := done
  cases seen : fs.metadata (.ofText req.path) with
  | error errno =>
      rw [seen] at done
      cases done
  | ok node =>
      have later : ∃ source, readToString fs req.path = .ok source := by
        cases node with
        | dir =>
            rw [seen] at done
            cases done
        | file _ =>
            simp only [seen, Except.bind_ok_iff] at done
            obtain ⟨-, -, source, read, -⟩ := done
            exact ⟨source, read⟩
        | symlink _ =>
            simp only [seen, Except.bind_ok_iff] at done
            obtain ⟨-, -, source, read, -⟩ := done
            exact ⟨source, read⟩
      obtain ⟨source, read⟩ := later
      exact read_of_readToString read

/-- A structural edit differs from before in its file alone exactly where it is spared. -/
theorem editUnder_differsAt_iff (faults : DiskFaults) (host : Host) (gate : CapabilityGate)
    (fs : FileSystem) (req : AstEditRequest) :
    fs.DiffersAt (editUnder faults host gate fs req).2 [.ofText req.path] ↔
      SparedEdit faults host gate fs req := by
  unfold SparedEdit editUnder
  cases planned : plan host gate fs req with
  | error error => exact iff_of_true (.refl fs _) nofun
  | ok found =>
      simp only [Except.ok.injEq, forall_eq']
      by_cases idle : found.replacements = 0
      · rw [if_pos idle]
        exact iff_of_true (.refl fs _) (absurd idle)
      · obtain ⟨bytes, reads⟩ := read_of_plan planned
        obtain ⟨entry, target⟩ := Stands.of_read reads
        rw [if_neg idle, imp_iff_right idle, ← replaceViaTmpUnder_differsAt_iff target]
        cases replaceViaTmpUnder faults fs (.ofText req.path) found.out with
        | mk outcome written =>
            cases outcome with
            | error failure => cases failure <;> rfl
            | ok _ =>
                simp only
                cases written.read (.ofText req.path) <;> rfl

end AstOps

namespace LspOps

/-- Each replacement of a run spares everything but its own file in the state it starts from. -/
def RunSpared (faults : Nat → DiskFaults) : Nat → FileSystem → List PlannedFile → Prop
  | _, _, [] => True
  | changed, fs, file :: rest =>
      Spared (faults changed) fs (.ofText file.path) (rewritten file) ∧
        ∀ after, replaceViaTmpUnder (faults changed) fs (.ofText file.path) (rewritten file) =
          (.ok (), after) → RunSpared faults (changed + 1) after rest

/-- The paths of the targets of an edit. -/
def targetPaths (edit : Json.Value) : List PathBuf :=
  (workspaceEditTargets edit).filterMap fun target => (uriToPath target.1).map PathBuf.ofText

/-- A run so far changed targets only, and each of them still stands. -/
structure Kept (before now : FileSystem) (paths : List PathBuf) : Prop where
  differs : before.DiffersAt now paths
  cwd : now.cwd = before.cwd
  stand : ∀ path ∈ paths, ∀ entry, before.entryOf path = .ok entry →
    (now.lookup entry).isSome ∧ now.lookup entry ≠ some .dir

theorem Kept.start {fs : FileSystem} {paths : List PathBuf}
    (reads : ∀ path ∈ paths, ∃ bytes, fs.read path = .ok bytes) : Kept fs fs paths := by
  refine ⟨.refl fs paths, rfl, ?_⟩
  intro path member entry stands
  obtain ⟨bytes, read⟩ := reads path member
  obtain ⟨own, target⟩ := Stands.of_read read
  obtain rfl : entry = own := Except.ok.inj (stands.symm.trans target.lands)
  exact ⟨target.present, target.solid⟩

/-- The entry of a path that was read leads to a file, also where it is a link. -/
theorem leads_of_entry {fs : FileSystem} {path : PathBuf} {above : Location} {name : String}
    {bytes : List UInt8} (reads : fs.read path = .ok bytes)
    (stands : fs.entryOf path = .ok (above ++ [name])) {target : PathBuf}
    (link : fs.lookup (above ++ [name]) = some (.symlink target)) :
    ∃ left reached bytes, Walks fs false left above target.osComponents reached ∧
      fs.lookup reached.1 = some (.file bytes) := by
  obtain ⟨plain, own, named⟩ := named_of_plain fs path _ stands (by simp [link])
  rw [entryOf_named fs path own plain named] at stands
  cases held : fs.container path with
  | error _ =>
      rw [held] at stands
      cases stands
  | ok upper =>
      rw [held] at stands
      obtain ⟨rfl, same⟩ := List.append_inj' (Except.ok.inj stands) rfl
      obtain rfl : own = name := List.singleton_inj.mp same
      exact leads_of_read reads plain named held link

/-- The targets are on no way to a directory, so every target keeps its entry. -/
theorem Kept.stands {before now : FileSystem} {paths : List PathBuf}
    (reads : ∀ path ∈ paths, ∃ bytes, before.read path = .ok bytes)
    (kept : Kept before now paths) {path : PathBuf} (member : path ∈ paths) :
    ∃ entry, before.entryOf path = .ok entry ∧ Stands now path entry := by
  have walks : now.KeepsWalks before := by
    have others : ∀ location, ¬(∃ path ∈ paths, before.entryOf path = .ok location) →
        now.lookup location = before.lookup location := by
      intro location other
      exact kept.differs location fun path member stands => other ⟨path, member, stands⟩
    refine keepsWalks_of_entries others ?_ ?_
    · rintro location ⟨path, member, stands⟩
      obtain ⟨bytes, read⟩ := reads path member
      obtain ⟨own, target⟩ := Stands.of_read read
      obtain rfl : location = own := Except.ok.inj (stands.symm.trans target.lands)
      exact target.solid
    · rintro above name target ⟨path, member, stands⟩ link
      obtain ⟨bytes, read⟩ := reads path member
      exact leads_of_entry read stands link
  obtain ⟨bytes, read⟩ := reads path member
  obtain ⟨entry, target⟩ := Stands.of_read read
  obtain ⟨present, solid⟩ := kept.stand path member entry target.lands
  exact ⟨entry, target.lands,
    ⟨entryOf_walks walks kept.cwd path entry target.lands target.solid, present, solid⟩⟩

/-- A spared replacement of a target leaves every other entry alone. -/
theorem Kept.step {before now : FileSystem} {paths : List PathBuf} {path : PathBuf}
    {faults : DiskFaults} {bytes : List UInt8}
    (reads : ∀ path ∈ paths, ∃ bytes, before.read path = .ok bytes)
    (kept : Kept before now paths) (member : path ∈ paths)
    (spared : Spared faults now path bytes) :
    before.DiffersAt (replaceViaTmpUnder faults now path bytes).2 paths ∧
      ∀ after, replaceViaTmpUnder faults now path bytes = (.ok (), after) →
        Kept before after paths := by
  obtain ⟨entry, stands, target⟩ := kept.stands reads member
  have differs := (replaceViaTmpUnder_differsAt_iff target).mpr spared
  rw [differsAt_single target.lands] at differs
  have others : before.DiffersAt (replaceViaTmpUnder faults now path bytes).2 paths := by
    intro location other
    rw [differs location fun own => other path member (own ▸ stands)]
    exact kept.differs location other
  refine ⟨others, fun after done => ?_⟩
  obtain ⟨cwd, present, solid⟩ := replaceViaTmpUnder_ok target done
  rw [done] at others differs
  refine ⟨others, cwd.trans kept.cwd, ?_⟩
  intro other inside spot lands
  by_cases own : spot = entry
  · rw [own]
    exact ⟨present, solid⟩
  · rw [differs spot own]
    exact kept.stand other inside spot lands

/-- A run of spared replacements differs from before in its targets alone. -/
theorem rewriteFilesUnder_differsAt {faults : Nat → DiskFaults} {before now : FileSystem}
    {paths : List PathBuf} {files : List PlannedFile} {changed : Nat}
    (reads : ∀ path ∈ paths, ∃ bytes, before.read path = .ok bytes)
    (targets : ∀ file ∈ files, PathBuf.ofText file.path ∈ paths) (kept : Kept before now paths)
    (spared : RunSpared faults changed now files) :
    before.DiffersAt (rewriteFilesUnder faults now changed files).2 paths := by
  induction files generalizing now changed with
  | nil => exact kept.differs
  | cons file rest ih =>
      obtain ⟨member, later⟩ := List.forall_mem_cons.mp targets
      obtain ⟨here, others⟩ := spared
      obtain ⟨differs, stays⟩ := kept.step reads member here
      rw [rewriteFilesUnder]
      cases done : replaceViaTmpUnder (faults changed) now (.ofText file.path)
          (rewritten file) with
      | mk outcome written =>
          rw [done] at differs
          cases outcome with
          | error failure => cases failure <;> exact differs
          | ok _ =>
              simp only
              cases written.read (.ofText file.path) with
              | error _ => exact differs
              | ok back =>
                  simp only
                  split_ifs
                  · exact ih later (stays written done) (others written done)
                  · exact differs

/-- Each replacement of a workspace edit spares everything but its own file. -/
def SparedWorkspace (faults : Nat → DiskFaults) (gate : CapabilityGate) (fs : FileSystem)
    (edit : Json.Value) : Prop :=
  ∀ files, plannedFiles gate fs edit = .ok files → RunSpared faults 0 fs files

/-- The planned files are the targets, and every target was read. -/
theorem targets_of_planned {gate : CapabilityGate} {fs : FileSystem}
    {targets : List (String × List Json.Value)} {files : List PlannedFile}
    (planned : List.Forall₂ (Planned gate fs) targets files) :
    (targets.filterMap fun target => (uriToPath target.1).map PathBuf.ofText) =
        files.map (fun file => PathBuf.ofText file.path) ∧
      ∀ file ∈ files, ∃ bytes, fs.read (.ofText file.path) = .ok bytes := by
  induction planned with
  | nil => exact ⟨rfl, List.forall_mem_nil _⟩
  | cons here _ ih =>
      refine ⟨?_, List.forall_mem_cons.mpr ⟨read_of_readToString here.source, ih.2⟩⟩
      rw [List.filterMap_cons, here.named, Option.map_some, ih.1, List.map_cons]

theorem applyWorkspaceEditUnder_snd (faults : Nat → DiskFaults) (gate : CapabilityGate)
    (fs : FileSystem) (edit : Json.Value) {files : List PlannedFile}
    (planned : plannedFiles gate fs edit = .ok files) :
    (applyWorkspaceEditUnder faults gate fs edit).2 = (rewriteFilesUnder faults fs 0 files).2 := by
  unfold applyWorkspaceEditUnder
  simp only [planned]
  cases rewriteFilesUnder faults fs 0 files with
  | mk outcome written => cases outcome <;> rfl

/-- A spared workspace edit differs from before in its targets alone. -/
theorem applyWorkspaceEditUnder_differsAt {faults : Nat → DiskFaults} {gate : CapabilityGate}
    {fs : FileSystem} {edit : Json.Value} (spared : SparedWorkspace faults gate fs edit) :
    fs.DiffersAt (applyWorkspaceEditUnder faults gate fs edit).2 (targetPaths edit) := by
  cases planned : plannedFiles gate fs edit with
  | error error =>
      have same : (applyWorkspaceEditUnder faults gate fs edit).2 = fs := by
        unfold applyWorkspaceEditUnder
        rw [planned]
      rw [same]
      exact .refl fs _
  | ok files =>
      obtain ⟨-, held, -⟩ := (plannedFiles_ok_iff gate fs edit files).mp planned
      obtain ⟨paths, read⟩ := targets_of_planned held
      have reads : ∀ path ∈ targetPaths edit, ∃ bytes, fs.read path = .ok bytes := by
        intro path member
        rw [targetPaths, paths] at member
        obtain ⟨file, inside, rfl⟩ := List.mem_map.mp member
        exact read file inside
      have targets : ∀ file ∈ files, PathBuf.ofText file.path ∈ targetPaths edit := by
        intro file member
        rw [targetPaths, paths]
        exact List.mem_map_of_mem member
      rw [applyWorkspaceEditUnder_snd faults gate fs edit planned]
      exact rewriteFilesUnder_differsAt reads targets (.start reads) (spared files planned)

/-- A workspace edit of one file differs from before in it alone exactly where it is spared. -/
theorem applyWorkspaceEditUnder_single_iff {faults : Nat → DiskFaults} {gate : CapabilityGate}
    {fs : FileSystem} {edit : Json.Value} {file : PlannedFile}
    (planned : plannedFiles gate fs edit = .ok [file]) :
    fs.DiffersAt (applyWorkspaceEditUnder faults gate fs edit).2 (targetPaths edit) ↔
      SparedWorkspace faults gate fs edit := by
  obtain ⟨-, held, -⟩ := (plannedFiles_ok_iff gate fs edit [file]).mp planned
  obtain ⟨paths, read⟩ := targets_of_planned held
  obtain ⟨bytes, reads⟩ := read file (List.mem_singleton_self file)
  obtain ⟨entry, target⟩ := Stands.of_read reads
  have alone : SparedWorkspace faults gate fs edit ↔
      Spared (faults 0) fs (.ofText file.path) (rewritten file) := by
    constructor
    · exact fun spared => (spared [file] planned).1
    · intro spared files same
      obtain rfl := Except.ok.inj (planned.symm.trans same)
      exact ⟨spared, fun _ _ => trivial⟩
  have state : (rewriteFilesUnder faults fs 0 [file]).2 =
      (replaceViaTmpUnder (faults 0) fs (.ofText file.path) (rewritten file)).2 := by
    rw [rewriteFilesUnder]
    cases replaceViaTmpUnder (faults 0) fs (.ofText file.path) (rewritten file) with
    | mk outcome written =>
        cases outcome with
        | error failure => cases failure <;> rfl
        | ok _ =>
            simp only
            cases written.read (.ofText file.path) with
            | error _ => rfl
            | ok back =>
                simp only
                split_ifs <;> rfl
  rw [alone, ← replaceViaTmpUnder_differsAt_iff target,
    applyWorkspaceEditUnder_snd faults gate fs edit planned, state, targetPaths, paths]
  rfl

end LspOps

/-- The atomic writers change nothing but their targets exactly where they are spared. -/
theorem writers_differAt_iff (faults : DiskFaults) (several : Nat → DiskFaults) (host : Host)
    (moment : Moment) (gate : CapabilityGate) (fs : FileSystem) :
    (∀ path bytes,
      fs.DiffersAt (FsOps.writeViaUniqueTmpUnder faults moment fs path bytes).2 [.ofText path] ↔
        FsOps.Spared faults fs
          ((PathBuf.ofText path).withExtension ("synthhires-tmp-" ++ moment.uuid))
          (.ofText path)) ∧
      (∀ req, fs.DiffersAt (AstOps.editUnder faults host gate fs req).2 [.ofText req.path] ↔
        AstOps.SparedEdit faults host gate fs req) ∧
      (∀ edit, LspOps.SparedWorkspace several gate fs edit →
        fs.DiffersAt (LspOps.applyWorkspaceEditUnder several gate fs edit).2
          (LspOps.targetPaths edit)) ∧
      ∀ edit file, LspOps.plannedFiles gate fs edit = .ok [file] →
        (fs.DiffersAt (LspOps.applyWorkspaceEditUnder several gate fs edit).2
            (LspOps.targetPaths edit) ↔ LspOps.SparedWorkspace several gate fs edit) := by
  refine ⟨?_, ?_, ?_, ?_⟩
  · intro path bytes
    exact FsOps.writeViaUniqueTmpUnder_differsAt_iff faults moment fs path bytes
  · intro req
    exact AstOps.editUnder_differsAt_iff faults host gate fs req
  · intro edit spared
    exact LspOps.applyWorkspaceEditUnder_differsAt spared
  · intro edit file planned
    exact LspOps.applyWorkspaceEditUnder_single_iff planned

/-- A file of the user stands beside the source. -/
def besideSource : FileSystem :=
  ((FileSystem.empty.put ["w"] .dir).put ["w", "a.rs"] (.file [97])).put
    ["w", "a.synthhires-tmp"] (.file [98])

/-- The server edits the source. -/
def sourceEdit : Json.Value :=
  .object [("changes", .object
    [("file:///w/a.rs", .array [.object [("newText", .string "c")]])])]

def sourceGate : CapabilityGate := .ofScopes ⟨["desktop.fs.write"], ["/w"]⟩

/-- A workspace edit takes the file of the user away on a disk without faults. -/
theorem sourceEdit_takes_file :
    ¬∀ (faults : DiskFaults) (several : Nat → DiskFaults) (host : Host) (moment : Moment)
      (gate : CapabilityGate) (fs : FileSystem),
      (∀ path bytes, fs.DiffersAt
        (FsOps.writeViaUniqueTmpUnder faults moment fs path bytes).2 [.ofText path]) ∧
      (∀ req, fs.DiffersAt (AstOps.editUnder faults host gate fs req).2 [.ofText req.path]) ∧
      ∀ edit, fs.DiffersAt (LspOps.applyWorkspaceEditUnder several gate fs edit).2
        (LspOps.targetPaths edit) := by
  intro all
  have differs := (all .calm (fun _ => .calm) .quiet (.quiet 0) sourceGate besideSource).2.2
    sourceEdit
  rw [LspOps.applyWorkspaceEditUnder_calm] at differs
  have targets : LspOps.targetPaths sourceEdit = [.ofText "/w/a.rs"] := by decide
  have other : besideSource.entryOf (.ofText "/w/a.rs") ≠ .ok ["w", "a.synthhires-tmp"] := by
    decide
  have kept := differs ["w", "a.synthhires-tmp"]
    (by rw [targets]; exact List.forall_mem_singleton.mpr other)
  exact absurd kept (by decide +kernel)

end Daemon
