import SynthHiresBridge.Proof.AtomicWriters
import SynthHiresBridge.Proof.Base64Exact
import SynthHiresBridge.Proof.Confinement

namespace Posix.FileSystem

theorem child_components (path : PathBuf) (name : String) :
    (path.child name).components = path.components ++ [.normal name] := by
  rw [PathBuf.child, PathBuf.components, PathBuf.components, List.map_append, List.append_assoc]
  rfl

/-- What leads to a directory goes on to its names. -/
theorem container_child {fs : FileSystem} {path : PathBuf} (dir : fs.isDir path = true)
    (name : String) : ∃ above, fs.container (path.child name) = .ok above := by
  obtain ⟨real, resolved, standing⟩ := (isDir_iff fs path).mp dir
  have named := components_ne_nil_of_canonicalize fs path real resolved
  rw [canonicalize_ne_nil fs path named] at resolved
  have goes : ∃ reached, fs.walk false maxSymlinks fs.cwd path.components = .ok reached ∧
      fs.lookup reached.1 = some .dir := by
    by_cases plain : path.ending = .plain
    · rw [PathBuf.osComponents_plain path plain] at resolved
      cases walked : fs.walk false maxSymlinks fs.cwd path.components with
      | error _ => rw [walked] at resolved; cases resolved
      | ok reached =>
          rw [walked] at resolved
          obtain rfl : reached.1 = real := Except.ok.inj resolved
          exact ⟨reached, rfl, standing⟩
    · have closed : path.osComponents = path.components ++ [.curDir] := by
        unfold PathBuf.osComponents
        split
        · rename_i same
          exact absurd same plain
        · rfl
      rw [closed, walk_append fs false _ _ _ [.curDir] (by simp)] at resolved
      cases walked : fs.walk false maxSymlinks fs.cwd path.components with
      | error _ => rw [walked] at resolved; cases resolved
      | ok reached =>
          rw [walked] at resolved
          simp only [Except.bind, walk_curDir] at resolved
          refine ⟨reached, rfl, (enter_ok_iff fs _).mp ?_⟩
          cases entered : fs.enter reached.1 with
          | error _ => rw [entered] at resolved; cases resolved
          | ok _ => rfl
  obtain ⟨reached, walked, held⟩ := goes
  refine ⟨reached.1, ?_⟩
  rw [container, child_components, List.dropLast_concat, walked]
  simp only [Except.bind, (enter_ok_iff fs reached.1).mpr held]
  rfl

/-- A name under a path has an entry when the path of its directory can be gone. -/
theorem entryOf_child {fs : FileSystem} {path : PathBuf} {name : String}
    (held : ∃ above, fs.container (path.child name) = .ok above) :
    ∃ entry, fs.entryOf (path.child name) = .ok entry := by
  obtain ⟨above, held⟩ := held
  have last : (path.child name).fileName = some name := by
    simp [PathBuf.child, PathBuf.fileName]
  refine ⟨above ++ [name], ?_⟩
  rw [entryOf_named fs _ name rfl last, held]
  rfl

/-- The siblings of a file or of a link to one have the same directory. -/
theorem container_sibling {fs : FileSystem} {path : PathBuf} {node : Node}
    (seen : fs.metadata path = .ok node) (solid : node ≠ .dir) :
    path.parent = some path.above ∧
      ∀ name, ∃ above, fs.container (path.above.child name) = .ok above := by
  obtain ⟨entry, stands, present⟩ := entry_of_metadata fs path node seen
  have free : fs.lookup entry ≠ some .dir := by
    rcases present with own | ⟨target, link⟩
    · rw [own]
      exact fun same => solid (Option.some.inj same)
    · rw [link]
      exact fun same => nomatch Option.some.inj same
  obtain ⟨plain, name, named⟩ := named_of_plain fs path entry stands free
  have split := PathBuf.components_of_fileName path name named
  constructor
  · rw [PathBuf.parent, split, List.getLast?_concat]
  · intro other
    have same : (path.above.child other).components.dropLast = path.components.dropLast := by
      rw [child_components, List.dropLast_concat, PathBuf.above_components]
    rw [container_congr fs same]
    rw [entryOf_named fs path name plain named] at stands
    cases held : fs.container path with
    | error _ => rw [held] at stands; cases stands
    | ok above => exact ⟨above, rfl⟩

/-- A path that can be read after its entry was replaced leads to the new file. -/
theorem read_of_replaced {before after : FileSystem} {path : PathBuf} {entry : Location}
    {bytes back : List UInt8} (replaced : Replaced before after path entry (.file bytes))
    (reads : after.read path = .ok back) : back = bytes ∧ after.entryOf path = .ok entry := by
  have own : after.lookup entry = some (.file bytes) := by rw [replaced.lookup, if_pos rfl]
  -- The way to the entry was there before, because only a file is new.
  have keeps : before.KeepsWays after := by
    intro location node present solid
    rw [replaced.lookup] at present
    split_ifs at present with same
    · exact absurd (Option.some.inj present).symm (solid bytes)
    · exact present
  have seen := metadata_of_read after path back reads
  obtain ⟨other, stands, present⟩ := entry_of_metadata after path (.file back) seen
  have solid : after.lookup other ≠ some .dir := by
    rcases present with file | ⟨target, link⟩
    · rw [file]
      simp
    · rw [link]
      simp
  have still := entryOf_ways keeps replaced.cwd.symm path other stands solid
  obtain rfl : entry = other := Except.ok.inj (replaced.stands.symm.trans still)
  refine ⟨?_, stands⟩
  rw [own] at present
  rcases present with file | ⟨target, link⟩
  · cases file
    rfl
  · cases link

end Posix.FileSystem

namespace Daemon

open Posix FileSystem

/-- A probe stays where its write fails after it was opened, and where its removal fails. -/
def ProbeFaults.strands (faults : ProbeFaults) : Bool :=
  faults.disk.writing.isSome || faults.disk.removing.isSome

namespace FsOps

/-- The probe of a verification stands in the directory or beside the file. -/
def probePath (moment : Moment) (fs : FileSystem) (path : PathBuf) : PathBuf :=
  (if fs.isDir path then path else path.above).child
    (".synthhires-verify-" ++ moment.probeName ++ ".tmp")

/-- A path that can be examined has a place for its probe. -/
theorem probePath_stands (moment : Moment) {fs : FileSystem} {path : PathBuf} {node : Node}
    (seen : fs.metadata path = .ok node) :
    ∃ entry, fs.entryOf (probePath moment fs path) = .ok entry := by
  unfold probePath
  by_cases dir : fs.isDir path = true
  · rw [if_pos dir]
    exact entryOf_child (container_child dir _)
  · rw [if_neg dir]
    refine entryOf_child ((container_sibling seen ?_).2 _)
    rintro rfl
    rw [isDir, seen] at dir
    exact dir rfl

/-- A fresh probe is the only entry that can differ, and only while it stays. -/
structure Probed (faults : ProbeFaults) (fs : FileSystem) (entry : Location)
    (result : Bool × FileSystem) : Prop where
  told : result.1 = true ↔
    faults.disk.opening = none ∧ faults.disk.writing = none ∧ faults.lost = false
  others : ∀ location, location ≠ entry → result.2.lookup location = fs.lookup location
  stays : result.2.lookup entry = none ↔ ¬ (faults.disk.opening = none ∧ faults.strands = true)

theorem probeWriteUnder_probed (faults : ProbeFaults) (moment : Moment) (fs : FileSystem)
    (dir : PathBuf) (entry : Location)
    (stands : fs.entryOf (dir.child (".synthhires-verify-" ++ moment.probeName ++ ".tmp")) =
      .ok entry) (missing : fs.lookup entry = none) :
    Probed faults fs entry (probeWriteUnder faults moment fs dir) := by
  unfold probeWriteUnder DiskFaults.write
  dsimp only
  generalize dir.child (".synthhires-verify-" ++ moment.probeName ++ ".tmp") = probe at stands ⊢
  generalize Text.encode ("synthhires-verify:" ++ moment.probePayload) = payload
  generalize landed : faults.disk.landed payload = content
  have fits := puttable_of_entryOf fs probe entry stands (by simp [missing])
  have wrote := writeFile_of_free fs probe entry content stands missing
  have lookup := lookup_put fs entry (.file content) fits
  cases opening : faults.disk.opening with
  | some text =>
      exact ⟨by simp [opening], fun _ _ => rfl, by simp [missing, opening]⟩
  | none =>
      simp only [wrote]
      cases writing : faults.disk.writing with
      | some stop =>
          refine ⟨by simp [writing], fun location other => by rw [lookup, if_neg other], ?_⟩
          simp [lookup, ProbeFaults.strands, opening, writing]
      | none =>
          obtain rfl : payload = content := by rw [← landed, DiskFaults.landed, writing]
          have reads := read_written fs _ probe _ wrote
          have still := entryOf_mono (put_extends fs entry (.file payload) missing fits).covers
            (put_cwd fs entry _) probe entry stands
          have standing : (fs.put entry (.file payload)).lookup entry = some (.file payload) := by
            rw [lookup, if_pos rfl]
          have removed := removeFile_of_entry still standing (by simp)
          have gone := fun place => lookup_removeTree_plain _ entry place fits.1
            (by rw [standing]; simp)
          simp only [reads, DiskFaults.removeFile]
          cases removing : faults.disk.removing with
          | some text =>
              refine ⟨by simp [opening, writing],
                fun location other => by rw [lookup, if_neg other], ?_⟩
              simp [standing, ProbeFaults.strands, opening, removing]
          | none =>
              simp only [removed]
              refine ⟨by simp [opening, writing], fun location other => ?_, ?_⟩
              · rw [gone, if_neg other, lookup, if_neg other]
              · simp [gone, ProbeFaults.strands, writing, removing]

/-- A verification looks at its path before it probes. -/
def Examined (faults : ProbeFaults) (fs : FileSystem) (path : PathBuf) : Prop :=
  faults.disk.examining = none ∧ ∃ node, fs.metadata path = .ok node

/-- A verification that cannot examine its path reports nothing and writes nothing. -/
theorem verifyUnder_unexamined {faults : ProbeFaults} (moment : Moment) {fs : FileSystem}
    {req : FsVerifyRequest} (unseen : ¬ Examined faults fs (.ofText req.path)) :
    (verifyUnder faults moment fs req).1.writable = false ∧
      (verifyUnder faults moment fs req).2 = fs := by
  unfold verifyUnder
  dsimp only
  cases examining : faults.disk.examining with
  | some text => exact ⟨rfl, rfl⟩
  | none =>
      cases seen : fs.metadata (.ofText req.path) with
      | error errno => exact ⟨rfl, rfl⟩
      | ok node => exact absurd ⟨examining, node, seen⟩ unseen

theorem verifyUnder_examined {faults : ProbeFaults} (moment : Moment) {fs : FileSystem}
    {req : FsVerifyRequest} (examined : Examined faults fs (.ofText req.path)) :
    ∃ dir, probePath moment fs (.ofText req.path) =
        PathBuf.child dir (".synthhires-verify-" ++ moment.probeName ++ ".tmp") ∧
      (verifyUnder faults moment fs req).1.writable = (probeWriteUnder faults moment fs dir).1 ∧
      (verifyUnder faults moment fs req).2 = (probeWriteUnder faults moment fs dir).2 := by
  obtain ⟨examining, node, seen⟩ := examined
  unfold verifyUnder probePath
  simp only [examining, seen]
  by_cases dir : node = .dir
  · subst dir
    have dir : fs.isDir (.ofText req.path) = true := by rw [isDir, seen]
    exact ⟨.ofText req.path, by rw [if_pos dir], rfl, rfl⟩
  · have file : fs.isDir (.ofText req.path) = false := by
      unfold isDir
      rw [seen]
      cases node with
      | dir => exact absurd rfl dir
      | file _ => rfl
      | symlink _ => rfl
    obtain ⟨parent, -⟩ := container_sibling seen dir
    have plain : (node == Node.dir) = false := by simpa using dir
    refine ⟨(PathBuf.ofText req.path).above, by rw [file]; rfl, ?_⟩
    simp only [plain, parent, Option.getD_some]
    exact ⟨rfl, rfl⟩

/-- With a fresh probe, a verification touches no other entry. It reports a path as writable exactly
when the probe was written and read back, and it leaves the probe behind exactly when the write
fails after the probe was opened or when the removal fails. -/
theorem verify_leaves_probe_iff (faults : ProbeFaults) (moment : Moment) (fs : FileSystem)
    (req : FsVerifyRequest)
    (fresh : ∀ entry, fs.entryOf (probePath moment fs (.ofText req.path)) = .ok entry →
      fs.lookup entry = none) :
    ((verifyUnder faults moment fs req).1.writable = true ↔
      Examined faults fs (.ofText req.path) ∧ faults.disk.opening = none ∧
        faults.disk.writing = none ∧ faults.lost = false) ∧
    fs.DiffersAt (verifyUnder faults moment fs req).2 [probePath moment fs (.ofText req.path)] ∧
    ((∀ location, (verifyUnder faults moment fs req).2.lookup location = fs.lookup location) ↔
      ¬ (Examined faults fs (.ofText req.path) ∧ faults.disk.opening = none ∧
        faults.strands = true)) := by
  by_cases examined : Examined faults fs (.ofText req.path)
  · obtain ⟨-, node, seen⟩ := id examined
    obtain ⟨dir, place, told, left⟩ := verifyUnder_examined moment examined
    obtain ⟨entry, stands⟩ := probePath_stands moment seen
    have missing := fresh entry stands
    rw [place] at stands
    have probed := probeWriteUnder_probed faults moment fs dir entry stands missing
    rw [told, left, place]
    refine ⟨probed.told.trans (and_iff_right examined).symm,
      (differsAt_single stands).mpr probed.others, ?_⟩
    rw [and_iff_right examined, ← probed.stays]
    constructor
    · exact fun same => (same entry).trans missing
    · intro gone location
      by_cases own : location = entry
      · rw [own, gone, missing]
      · exact probed.others location own
  · obtain ⟨told, left⟩ := verifyUnder_unexamined moment examined
    rw [told, left]
    refine ⟨iff_of_false Bool.false_ne_true fun parts => examined parts.1, .refl fs _,
      iff_of_true (fun _ => rfl) fun parts => examined parts.1⟩

/-- A disk that is full after three bytes. -/
def fullDisk : ProbeFaults :=
  { ProbeFaults.calm with disk := { DiskFaults.calm with writing := some (3, "disk full") } }

/-- The probe of a root directory stays behind on a full disk. -/
theorem probe_left_on_full_disk :
    ∃ location, (verifyUnder fullDisk (.quiet 0) FileSystem.empty ⟨"/"⟩).2.lookup location ≠
      FileSystem.empty.lookup location := by
  have left := (verify_leaves_probe_iff fullDisk (.quiet 0) FileSystem.empty ⟨"/"⟩ (by
    intro entry stands
    have place : FileSystem.empty.entryOf (probePath (.quiet 0) FileSystem.empty (.ofText "/")) =
        .ok [".synthhires-verify-0.tmp"] := by rfl
    rw [place] at stands
    obtain rfl := Except.ok.inj stands
    rfl)).2.2
  by_contra none
  refine left.mp (fun location => ?_) ⟨⟨rfl, .dir, by rfl⟩, rfl, rfl⟩
  by_contra different
  exact none ⟨location, different⟩

/-- What a write leaves differs from before in its entry and in directories that it made. -/
def WritesOnly (before after : FileSystem) (entry : Location) : Prop :=
  ∀ location, location ≠ entry → after.lookup location = before.lookup location ∨
    before.lookup location = none ∧ after.lookup location = some .dir

/-- A write that succeeds has read back its own content. -/
theorem write_back {moment : Moment} {gate : CapabilityGate} {fs written : FileSystem}
    {req : FsWriteRequest} {result : FsWriteResult}
    (done : write moment gate fs req = (.ok result, written)) :
    ∃ back, written.read (.ofText req.path) = .ok back ∧
      result = ⟨back.length, back == Text.encode req.content⟩ := by
  unfold write at done
  dsimp only at done
  split at done
  · cases done
  split at done
  · cases done
  split at done
  · cases done
  split at done
  · cases done
  split at done
  · cases done
  split at done
  · cases done
  · rename_i back reads
    obtain ⟨told, rfl⟩ := Prod.mk.inj done
    exact ⟨back, reads, (Except.ok.inj told).symm⟩

/-- A write that succeeds is verified, changes its entry alone apart from the directories that it
made, and every later read through a gate that allows it gives the content up to its limit and says
whether there is more. -/
theorem written_reads_back (moment : Moment) (gate : CapabilityGate) (fs written : FileSystem)
    (req : FsWriteRequest) (result : FsWriteResult)
    (done : write moment gate fs req = (.ok result, written)) :
    result = ⟨(Text.encode req.content).length, true⟩ ∧
    (∃ entry, written.entryOf (.ofText req.path) = .ok entry ∧ WritesOnly fs written entry) ∧
    ∀ (reader : CapabilityGate) (maxBytes : Option Nat) (annotate : Option Bool),
      gateForPath reader written "desktop.fs.read" req.path = .ok () →
      ∃ back, read reader written ⟨req.path, maxBytes, annotate⟩ = .ok back ∧
        Base64.base64Decode back.contentBase64 =
          some ((Text.encode req.content).take (min (maxBytes.getD 1048576) 10485760)) ∧
        (back.truncated = true ↔
          min (maxBytes.getD 1048576) 10485760 < (Text.encode req.content).length) := by
  obtain ⟨back, reads, rfl⟩ := write_back done
  obtain ⟨-, made, entry, created, -, replaced⟩ := write_ok moment gate fs written req _ done
  obtain ⟨rfl, stands⟩ := read_of_replaced replaced reads
  refine ⟨by rw [beq_self_eq_true], ⟨entry, stands, fun location other => ?_⟩, ?_⟩
  · have adds := createDirAllFrom_addsDirs fs (PathBuf.ofText req.path).above.anchor
      (PathBuf.ofText req.path).above.segments.reverse
    rw [← createDirAll, created] at adds
    rw [replaced.lookup, if_neg other]
    exact (adds.cases location).imp Eq.symm id
  · intro reader maxBytes annotate granted
    generalize Text.encode req.content = bytes at reads
    have opened : read reader written ⟨req.path, maxBytes, annotate⟩ =
        .ok ⟨Base64.base64Encode (bytes.take (min (maxBytes.getD 1048576) 10485760)),
          (bytes.take (min (maxBytes.getD 1048576) 10485760)).length,
          decide ((bytes.take (min (maxBytes.getD 1048576) 10485760)).length < bytes.length)⟩ := by
      unfold read
      simp only [granted, Except.bind, reads]
    refine ⟨_, opened, Base64.base64Decode_base64Encode _, ?_⟩
    rw [decide_eq_true_eq, List.length_take]
    omega

/-- A gate for the whole disk. -/
def wideGate : CapabilityGate :=
  .ofScopes ⟨["desktop.fs.read", "desktop.fs.write", "desktop.fs.delete"], ["/"]⟩

/-- A greeting in a new directory is read up to its second byte. -/
theorem greeting_reads_back : ∃ back,
    read wideGate (write (.quiet 0) wideGate .empty ⟨"/w/a", "hello"⟩).2 ⟨"/w/a", some 2, none⟩ =
        .ok back ∧
      Base64.base64Decode back.contentBase64 =
        some ((Text.encode "hello").take (min ((some 2).getD 1048576) 10485760)) ∧
      (back.truncated = true ↔
        min ((some 2).getD 1048576) 10485760 < (Text.encode "hello").length) :=
  (written_reads_back (.quiet 0) wideGate .empty _ ⟨"/w/a", "hello"⟩ ⟨5, true⟩ (by rfl)).2.2
    wideGate (some 2) none (by rfl)

/-- The ways in which a delete ends. -/
inductive Deletion (gate : CapabilityGate) (fs : FileSystem) (req : FsDeleteRequest) :
    Except DaemonError Unit × FileSystem → Prop where
  | refused (error : DaemonError)
      (idle : ¬ (gateForPath gate fs "desktop.fs.delete" req.path = .ok () ∧
        fs.pathExists (.ofText req.path) = true)) : Deletion gate fs req (.error error, fs)
  | removed (entry : Location)
      (passed : gateForPath gate fs "desktop.fs.delete" req.path = .ok ())
      (present : fs.pathExists (.ofText req.path) = true)
      (removable : fs.Removable (.ofText req.path))
      (stands : fs.entryOf (.ofText req.path) = .ok entry) (nested : entry ≠ []) :
      Deletion gate fs req (.ok (), fs.removeTree entry)
  | emptied (entry : Location) (error : DaemonError)
      (passed : gateForPath gate fs "desktop.fs.delete" req.path = .ok ())
      (dir : fs.isDir (.ofText req.path) = true) (stuck : ¬ fs.Removable (.ofText req.path))
      (stands : fs.entryOf (.ofText req.path) = .ok entry) :
      Deletion gate fs req (.error error, fs.removeChildren entry)

theorem delete_ends (gate : CapabilityGate) (fs : FileSystem) (req : FsDeleteRequest) :
    Deletion gate fs req (delete gate fs req) := by
  unfold delete
  cases passed : gateForPath gate fs "desktop.fs.delete" req.path with
  | error _ => exact .refused _ (by simp [passed])
  | ok _ =>
      simp only
      cases seen : fs.metadata (.ofText req.path) with
      | error _ => exact .refused _ (by simp [pathExists, seen])
      | ok node =>
          have present : fs.pathExists (.ofText req.path) = true := by simp [pathExists, seen]
          by_cases dir : fs.isDir (.ofText req.path) = true
          · obtain rfl : node = .dir :=
              Except.ok.inj (seen.symm.trans (metadata_of_isDir fs _ dir))
            by_cases removable : fs.Removable (.ofText req.path)
            · obtain ⟨entry, stands, nested, ran⟩ := (removeDirAll_iff fs _ dir).1 removable
              simp only [ran]
              exact .removed entry passed present removable stands nested
            · obtain ⟨entry, reason, stands, -, ran⟩ := removeDirAll_stuck fs _ dir removable
              simp only [ran]
              exact .emptied entry _ passed dir removable stands
          · have plain : fs.isDir (.ofText req.path) = false := by simpa using dir
            obtain ⟨entry, stands, solid, ran⟩ := removeFile_of_exists fs _ present plain
            have nested : entry ≠ [] := by
              rintro rfl
              simp at solid
            have ended := Deletion.removed entry passed present (fun own => absurd own dir)
              stands nested
            cases node with
            | dir => simp [isDir, seen] at plain
            | file _ | symlink _ => simpa only [ran] using ended

/-- A workspace with one note. -/
def noteDisk : FileSystem := (write (.quiet 0) wideGate .empty ⟨"/w/a", "hello"⟩).2

end FsOps

end Daemon
