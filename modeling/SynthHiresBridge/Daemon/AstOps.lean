import SynthHiresBridge.Daemon.FsOps

namespace Daemon

open Json Posix

/-- A read of text refuses bytes that are not UTF-8. -/
def readToString (fs : FileSystem) (path : String) : Except DaemonError String :=
  match fs.read (.ofText path) with
  | .error errno => .error (.ofErrno errno)
  | .ok bytes => match Text.strict bytes with
      | none => .error (.io "stream did not contain valid UTF-8")
      | some text => .ok text

/-- An edit checks the spelling of its path only. -/
def ensurePath (gate : CapabilityGate) (capability path : String) : Except DaemonError Unit :=
  match gate.checkPath capability (.ofText path) with
  | .allow => .ok ()
  | .requireConsent => .error (.capabilityDenied (capability ++ " requires consent for " ++ path))
  | .deny => .error (.capabilityDenied capability)

/-- A replacement fails while it writes its sibling or while it renames it. -/
inductive ReplaceFault where
  | writing (errno : Errno)
  | renaming (errno : Errno)
  deriving DecidableEq

def replaceTmp (path : PathBuf) : PathBuf := path.withExtension "synthhires-tmp"

/-- A replacement writes a sibling with a fixed name and renames it over its target. -/
def replaceViaTmp (fs : FileSystem) (path : PathBuf) (bytes : List UInt8) :
    Except ReplaceFault Unit × FileSystem :=
  match fs.writeFile (replaceTmp path) bytes with
  | .error errno => (.error (.writing errno), fs)
  | .ok written => match written.rename (replaceTmp path) path with
      | .ok renamed => (.ok (), renamed)
      | .error errno => (.error (.renaming errno), match written.removeFile (replaceTmp path) with
          | .ok removed => removed
          | .error _ => written)

structure AstEditRequest where
  path : String
  pattern : String
  replacement : String
  language : Option String

structure AstEditResult where
  replacements : Nat
  bytesWritten : Nat
  verified : Bool
  deriving DecidableEq

namespace AstOps

/-- The output is rebuilt from the source in the order of the edits. -/
def rebuild (source : List UInt8) (last : Nat) :
    List ByteEdit → Except DaemonError (List UInt8)
  | [] => .ok (source.drop last)
  | edit :: rest =>
      let stop := edit.position + edit.deletedLength
      if edit.position < last || source.length < stop then
        .error (.protocol "ast_edit: overlapping or out-of-bounds edit computed")
      else (rebuild source stop rest).map fun tail =>
        (source.take edit.position).drop last ++ Text.encode (Text.lossy edit.insertedText) ++ tail

/-- A plan counts the replacements of an edit and holds the bytes it would write. -/
structure Plan where
  replacements : Nat
  sourceLength : Nat
  out : List UInt8

/-- An edit checks its path, reads its source and computes its output before it writes. -/
def plan (host : Host) (gate : CapabilityGate) (fs : FileSystem) (req : AstEditRequest) :
    Except DaemonError Plan :=
  (ensurePath gate "desktop.fs.write" req.path).bind fun _ =>
    match fs.metadata (.ofText req.path) with
    | .error errno => .error (.ofErrno errno)
    | .ok .dir => .error (.protocol ("ast_edit: path is a directory; it operates on a single " ++
        "file (use ast_grep over the directory to locate the files, then edit each)"))
    | .ok _ => (host.astLanguage req.language req.path req.pattern).bind fun _ =>
        (readToString fs req.path).bind fun source =>
          let edits := host.astReplaceAll req.language req.path req.pattern req.replacement source
          let bytes := Text.encode source
          (rebuild bytes 0 (edits.insertionSort fun first second =>
            first.position ≤ second.position)).map fun out => ⟨edits.length, bytes.length, out⟩

/-- An edit rewrites one file through its structure, and without a match it writes nothing. -/
def edit (host : Host) (gate : CapabilityGate) (fs : FileSystem) (req : AstEditRequest) :
    Except DaemonError AstEditResult × FileSystem :=
  let path := PathBuf.ofText req.path
  match plan host gate fs req with
  | .error error => (.error error, fs)
  | .ok plan =>
    if plan.replacements = 0 then (.ok ⟨0, plan.sourceLength, true⟩, fs)
    else match replaceViaTmp fs path plan.out with
      | (.error (.writing errno), written) => (.error (.ofErrno errno), written)
      | (.error (.renaming _), written) => (.error (.protocol "ast_edit: rename failed"), written)
      | (.ok _, written) => match written.read path with
        | .error errno => (.error (.ofErrno errno), written)
        | .ok back => (.ok ⟨plan.replacements, back.length, back == plan.out⟩, written)

end AstOps

end Daemon
