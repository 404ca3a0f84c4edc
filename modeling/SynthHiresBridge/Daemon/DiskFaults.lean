import SynthHiresBridge.Daemon.LspOps

namespace Daemon

open Posix

/-- What the disk refuses while one file is replaced, with the text of each refusal. -/
structure DiskFaults where
  opening : Option String
  /-- The write stops after some bytes. -/
  writing : Option (Nat × String)
  syncing : Option String
  examining : Option String
  moving : Option String
  removing : Option String

namespace DiskFaults

/-- A disk that refuses nothing. -/
def calm : DiskFaults := ⟨none, none, none, none, none, none⟩

/-- The bytes that reach an opened file. -/
def landed (faults : DiskFaults) (bytes : List UInt8) : List UInt8 :=
  match faults.writing with
  | none => bytes
  | some (count, _) => bytes.take count

/-- A file is opened with the bytes that reach it, and then the write may report its error. -/
def write (faults : DiskFaults) (fs : FileSystem) (opened : Except Errno FileSystem) :
    Except DaemonError Unit × FileSystem :=
  match faults.opening with
  | some text => (.error (.io text), fs)
  | none => match opened with
    | .error errno => (.error (.ofErrno errno), fs)
    | .ok written => match faults.writing with
      | some (_, text) => (.error (.io text), written)
      | none => (.ok (), written)

def rename (faults : DiskFaults) (fs : FileSystem) (source target : PathBuf) :
    Except DaemonError FileSystem :=
  match faults.moving with
  | some text => .error (.io text)
  | none => match fs.rename source target with
    | .error errno => .error (.ofErrno errno)
    | .ok renamed => .ok renamed

/-- The result of a removal is ignored. -/
def removeFile (faults : DiskFaults) (fs : FileSystem) (path : PathBuf) : FileSystem :=
  match faults.removing with
  | some _ => fs
  | none => match fs.removeFile path with
    | .ok removed => removed
    | .error _ => fs

end DiskFaults

/-- What the disk refuses while access to a path is verified. -/
structure ProbeFaults where
  disk : DiskFaults
  /-- The path itself cannot be read. -/
  unreadable : Bool
  /-- The probe cannot be read back. -/
  lost : Bool

def ProbeFaults.calm : ProbeFaults := ⟨.calm, false, false⟩

/-- A probe on a disk with faults is removed only after its write succeeded. -/
def FsOps.probeWriteUnder (faults : ProbeFaults) (moment : Moment) (fs : FileSystem)
    (dir : PathBuf) : Bool × FileSystem :=
  let probe := dir.child (".synthhires-verify-" ++ moment.probeName ++ ".tmp")
  let payload := Text.encode ("synthhires-verify:" ++ moment.probePayload)
  match faults.disk.write fs (fs.writeFile probe (faults.disk.landed payload)) with
  | (.error _, written) => (false, written)
  | (.ok _, written) =>
      let readBack := if faults.lost then false else match written.read probe with
        | .ok bytes => bytes == payload
        | .error _ => false
      (readBack, faults.disk.removeFile written probe)

/-- A verification on a disk with faults. -/
def FsOps.verifyUnder (faults : ProbeFaults) (moment : Moment) (fs : FileSystem)
    (req : FsVerifyRequest) : FsVerifyResult × FileSystem :=
  let path := PathBuf.ofText req.path
  let absent := fun text : String =>
    (FsVerifyResult.mk false false false false (some ("no existe o no es accesible: " ++ text)), fs)
  match faults.disk.examining with
  | some text => absent text
  | none => match fs.metadata path with
    | .error errno => absent (errnoText errno)
    | .ok node =>
        let isDir := node == .dir
        let readable := if faults.unreadable then false
          else if isDir then fs.isDir path else (fs.read path).isOk
        let probed :=
          if isDir then probeWriteUnder faults moment fs path
          else probeWriteUnder faults moment fs (path.parent.getD (path.parent.getD (.ofText ".")))
        let mark := fun passed : Bool => if passed then "ok" else "FALLA"
        (⟨true, isDir, readable, probed.1,
          if readable && probed.1 then none
          else some ("lectura: " ++ mark readable ++ ", escritura: " ++ mark probed.1)⟩, probed.2)

/-- An atomic write on a disk with faults leaves its sibling where it fails. -/
def FsOps.writeViaUniqueTmpUnder (faults : DiskFaults) (moment : Moment) (fs : FileSystem)
    (path : String) (bytes : List UInt8) : Except DaemonError Unit × FileSystem :=
  let tmp := (PathBuf.ofText path).withExtension ("synthhires-tmp-" ++ moment.uuid)
  match faults.write fs (fs.createNew tmp (faults.landed bytes)) with
  | (.error error, created) => (.error error, created)
  | (.ok _, created) => match faults.syncing with
    | some text => (.error (.io text), created)
    | none => match faults.examining with
      | some text => (.error (.io text), created)
      | none => match created.symlinkMetadata tmp with
        | .error errno => (.error (.ofErrno errno), created)
        | .ok (.symlink _) =>
            (.error (.pathDenied (path ++ ": tmp path is a symlink — refusing atomic write")),
              faults.removeFile created tmp)
        | .ok _ => match faults.rename created tmp (.ofText path) with
          | .error error => (.error error, created)
          | .ok renamed => (.ok (), renamed)

/-- A replacement fails with the error of its write or of its rename. -/
inductive ReplaceError where
  | writing (error : DaemonError)
  | renaming (error : DaemonError)

/-- A replacement on a disk with faults removes its sibling only after a failed rename. -/
def replaceViaTmpUnder (faults : DiskFaults) (fs : FileSystem) (path : PathBuf)
    (bytes : List UInt8) : Except ReplaceError Unit × FileSystem :=
  match faults.write fs (fs.writeFile (replaceTmp path) (faults.landed bytes)) with
  | (.error error, written) => (.error (.writing error), written)
  | (.ok _, written) => match faults.rename written (replaceTmp path) path with
    | .ok renamed => (.ok (), renamed)
    | .error error => (.error (.renaming error), faults.removeFile written (replaceTmp path))

/-- A structural edit on a disk with faults. -/
def AstOps.editUnder (faults : DiskFaults) (host : Host) (gate : CapabilityGate)
    (fs : FileSystem) (req : AstEditRequest) : Except DaemonError AstEditResult × FileSystem :=
  let path := PathBuf.ofText req.path
  match plan host gate fs req with
  | .error error => (.error error, fs)
  | .ok plan =>
    if plan.replacements = 0 then (.ok ⟨0, plan.sourceLength, true⟩, fs)
    else match replaceViaTmpUnder faults fs path plan.out with
      | (.error (.writing error), written) => (.error error, written)
      | (.error (.renaming _), written) => (.error (.protocol "ast_edit: rename failed"), written)
      | (.ok _, written) => match written.read path with
        | .error errno => (.error (.ofErrno errno), written)
        | .ok back => (.ok ⟨plan.replacements, back.length, back == plan.out⟩, written)

/-- The faults of each replacement are numbered by the files that were changed before it. -/
def LspOps.rewriteFilesUnder (faults : Nat → DiskFaults) (fs : FileSystem) (filesChanged : Nat) :
    List LspOps.PlannedFile → Except DaemonError Nat × FileSystem
  | [] => (.ok filesChanged, fs)
  | file :: rest =>
      match replaceViaTmpUnder (faults filesChanged) fs (.ofText file.path) (rewritten file) with
      | (.error (.writing error), written) => (.error error, written)
      | (.error (.renaming error), written) => (.error error, written)
      | (.ok _, written) => match written.read (.ofText file.path) with
        | .error errno => (.error (.ofErrno errno), written)
        | .ok back =>
            if back = rewritten file then rewriteFilesUnder faults written (filesChanged + 1) rest
            else (.error (.protocol "lsp rename: read-back verification failed"), written)

/-- A workspace edit on a disk with faults. -/
def LspOps.applyWorkspaceEditUnder (faults : Nat → DiskFaults) (gate : CapabilityGate)
    (fs : FileSystem) (edit : Json.Value) : Except DaemonError (Nat × Nat) × FileSystem :=
  match plannedFiles gate fs edit with
  | .error error => (.error error, fs)
  | .ok files => match rewriteFilesUnder faults fs 0 files with
    | (.error error, written) => (.error error, written)
    | (.ok changed, written) =>
        (.ok (changed, (files.flatMap fun file => file.ranges).length), written)

/-- The kind of a failure does not depend on who reports it. -/
def ReplaceFault.error : ReplaceFault → ReplaceError
  | .writing errno => .writing (.ofErrno errno)
  | .renaming errno => .renaming (.ofErrno errno)

/-- A calm disk gives the replacement without faults. -/
theorem replaceViaTmpUnder_calm (fs : FileSystem) (path : PathBuf) (bytes : List UInt8) :
    replaceViaTmpUnder .calm fs path bytes =
      ((replaceViaTmp fs path bytes).1.mapError ReplaceFault.error,
        (replaceViaTmp fs path bytes).2) := by
  unfold replaceViaTmpUnder replaceViaTmp DiskFaults.write
  simp only [DiskFaults.calm, DiskFaults.landed, DiskFaults.rename, DiskFaults.removeFile]
  cases fs.writeFile (replaceTmp path) bytes with
  | error _ => rfl
  | ok written =>
      simp only
      cases written.rename (replaceTmp path) path with
      | error _ => rfl
      | ok _ => rfl

theorem FsOps.probeWriteUnder_calm (moment : Moment) (fs : FileSystem) (dir : PathBuf) :
    probeWriteUnder .calm moment fs dir = probeWrite moment fs dir := by
  unfold probeWriteUnder probeWrite DiskFaults.write
  simp only [ProbeFaults.calm, DiskFaults.calm, DiskFaults.landed, DiskFaults.removeFile]
  cases fs.writeFile (dir.child (".synthhires-verify-" ++ moment.probeName ++ ".tmp"))
      (Text.encode ("synthhires-verify:" ++ moment.probePayload)) with
  | error _ => rfl
  | ok written => rfl

theorem FsOps.verifyUnder_calm (moment : Moment) (fs : FileSystem) (req : FsVerifyRequest) :
    verifyUnder .calm moment fs req = verify moment fs req := by
  unfold verifyUnder verify
  simp only [FsOps.probeWriteUnder_calm]
  rfl

theorem FsOps.writeViaUniqueTmpUnder_calm (moment : Moment) (fs : FileSystem) (path : String)
    (bytes : List UInt8) : writeViaUniqueTmpUnder .calm moment fs path bytes =
      writeViaUniqueTmp moment fs path bytes := by
  unfold writeViaUniqueTmpUnder writeViaUniqueTmp DiskFaults.write
  simp only [DiskFaults.calm, DiskFaults.landed, DiskFaults.rename, DiskFaults.removeFile]
  cases fs.createNew ((PathBuf.ofText path).withExtension ("synthhires-tmp-" ++ moment.uuid))
      bytes with
  | error _ => rfl
  | ok created =>
      simp only
      cases created.symlinkMetadata ((PathBuf.ofText path).withExtension
          ("synthhires-tmp-" ++ moment.uuid)) with
      | error _ => rfl
      | ok node =>
          cases created.rename ((PathBuf.ofText path).withExtension
              ("synthhires-tmp-" ++ moment.uuid)) (.ofText path) with
          | error _ => cases node <;> rfl
          | ok _ => cases node <;> rfl

theorem AstOps.editUnder_calm (host : Host) (gate : CapabilityGate) (fs : FileSystem)
    (req : AstEditRequest) : editUnder .calm host gate fs req = edit host gate fs req := by
  unfold editUnder edit
  cases plan host gate fs req with
  | error _ => rfl
  | ok plan =>
      simp only [replaceViaTmpUnder_calm]
      split_ifs
      · rfl
      · cases replaceViaTmp fs (.ofText req.path) plan.out with
        | mk outcome written =>
            cases outcome with
            | ok _ => rfl
            | error fault => cases fault <;> rfl

theorem LspOps.rewriteFilesUnder_calm (fs : FileSystem) (filesChanged : Nat)
    (files : List PlannedFile) : rewriteFilesUnder (fun _ => .calm) fs filesChanged files =
      rewriteFiles fs filesChanged files := by
  induction files generalizing fs filesChanged with
  | nil => rfl
  | cons file rest ih =>
      rw [rewriteFilesUnder, rewriteFiles, replaceViaTmpUnder_calm]
      cases replaceViaTmp fs (.ofText file.path) (rewritten file) with
      | mk outcome written =>
          cases outcome with
          | error fault => cases fault <;> rfl
          | ok _ =>
              simp only [Except.mapError, ih]
              all_goals rfl

theorem LspOps.applyWorkspaceEditUnder_calm (gate : CapabilityGate) (fs : FileSystem)
    (edit : Json.Value) : applyWorkspaceEditUnder (fun _ => .calm) gate fs edit =
      applyWorkspaceEdit gate fs edit := by
  unfold applyWorkspaceEditUnder applyWorkspaceEdit
  simp only [rewriteFilesUnder_calm]
  all_goals rfl

end Daemon
