import SynthHiresBridge.Daemon.AstOps

namespace Daemon

open Json Posix

structure LspRenameRequest where
  path : String
  line : Nat
  character : Nat
  newName : String
  workspace : Option String

structure LspRenameResult where
  language : String
  server : String
  filesChanged : Nat
  editsApplied : Nat
  deriving DecidableEq

namespace LspOps

def hexDigit (byte : UInt8) : Option Nat :=
  let code := byte.toNat
  if 48 ≤ code ∧ code ≤ 57 then some (code - 48)
  else if 65 ≤ code ∧ code ≤ 70 then some (code - 55)
  else if 97 ≤ code ∧ code ≤ 102 then some (code - 87)
  else none

/-- Two digits are read in base 16, and a plus sign may stand for the first one. -/
def hexPair (first second : UInt8) : Option UInt8 :=
  if first.toNat = 43 then (hexDigit second).map UInt8.ofNat
  else (hexDigit first).bind fun high => (hexDigit second).map fun low => UInt8.ofNat (16 * high + low)

/-- Percent groups are decoded on bytes. -/
def percentDecode : List UInt8 → Option (List UInt8)
  | 37 :: first :: second :: rest =>
      (hexPair first second).bind fun byte => (percentDecode rest).map (byte :: ·)
  | byte :: rest => (percentDecode rest).map (byte :: ·)
  | [] => some []

/-- A file address keeps the text from its first slash after the host. -/
def uriToPath (uri : String) : Option String :=
  if "file://".toList.isPrefixOf uri.toList then
    let rest := uri.toList.drop 7
    let raw := Text.encode (String.ofList (rest.dropWhile (· ≠ '/')))
    (percentDecode raw).map Text.lossy
  else none

def utf16Size (char : Char) : Nat := if char.toNat < 0x10000 then 1 else 2

/-- The byte offset of a UTF-16 column, where a column inside a character gives its end. -/
def utf16ToByteOffset (column : Nat) (count offset : Nat) : List Char → Nat
  | [] => offset
  | char :: rest =>
      if column ≤ count then offset
      else if column < count + utf16Size char then offset + char.utf8Size
      else utf16ToByteOffset column (count + utf16Size char) (offset + char.utf8Size) rest

def byteLength (chars : List Char) : Nat := (chars.flatMap String.utf8EncodeChar).length

/-- The loop adds the lengths of the lines before the one it looks for. -/
def linecolFrom (character : Nat) (offset : Nat) : Nat → List (List Char) → Nat
  | _, [] => offset
  | 0, text :: _ => offset + utf16ToByteOffset character 0 0 text
  | line + 1, text :: rest => linecolFrom character (offset + byteLength text) line rest

def linecolToByte (source : String) (line character : Nat) : Nat :=
  linecolFrom character 0 line (Text.splitInclusive source.toList)

/-- The targets of an edit stand in its changes and in its document changes. -/
def workspaceEditTargets (edit : Value) : List (String × List Value) :=
  let changes := ((edit.get "changes").bind Value.asObject).getD []
  let docs := ((edit.get "documentChanges").bind Value.asArray).getD []
  (changes.filterMap fun (uri, edits) => edits.asArray.map fun list => (uri, list)) ++
    docs.filterMap fun doc =>
      ((doc.pointer ["textDocument", "uri"]).bind Value.asStr).bind fun uri =>
        ((doc.get "edits").bind Value.asArray).map fun edits => (uri, edits)

/-- One replacement takes the bytes of a range. -/
structure RangeEdit where
  start : Nat
  stop : Nat
  text : String
  deriving DecidableEq

def position (edit : Value) (keys : List String) : Nat :=
  ((edit.pointer keys).bind Value.asU64).getD 0

/-- A text edit becomes a range of bytes that lies inside the source. -/
def rangeEdit (uri source : String) (edit : Value) : Except DaemonError RangeEdit :=
  let start := linecolToByte source (position edit ["range", "start", "line"])
    (position edit ["range", "start", "character"])
  let stop := linecolToByte source (position edit ["range", "end", "line"])
    (position edit ["range", "end", "character"])
  let newText := ((edit.get "newText").bind Value.asStr).getD ""
  if stop < start || (Text.encode source).length < stop then
    .error (.protocol ("lsp rename: invalid range " ++ toString start ++ ".." ++ toString stop ++
      " in " ++ uri))
  else .ok ⟨start, stop, newText⟩

/-- A planned file has its source and its ranges. -/
structure PlannedFile where
  path : String
  source : String
  ranges : List RangeEdit
  deriving DecidableEq

/-- Every target passes the gate and is read before anything is written. -/
def planFile (gate : CapabilityGate) (fs : FileSystem) (target : String × List Value) :
    Except DaemonError PlannedFile :=
  match uriToPath target.1 with
  | none => .error (.protocol ("lsp rename: unsupported uri " ++ target.1))
  | some path => (ensurePath gate "desktop.fs.write" path).bind fun _ =>
      (readToString fs path).bind fun source =>
        (target.2.mapM (rangeEdit target.1 source)).map fun ranges => ⟨path, source, ranges⟩

/-- Two neighbours in the order of their ranges overlap. -/
def overlapping : List RangeEdit → Bool
  | first :: second :: rest => second.start < first.stop || overlapping (second :: rest)
  | _ => false

def rangeBefore (first second : RangeEdit) : Prop :=
  first.start < second.start ∨ (first.start = second.start ∧ first.stop ≤ second.stop)

instance : DecidableRel rangeBefore := fun _ _ => inferInstanceAs (Decidable (_ ∨ _))

/-- The ranges are replaced from the last one to the first one. -/
def rewritten (file : PlannedFile) : List UInt8 :=
  let order := (file.ranges.insertionSort fun first second => first.start ≤ second.start).reverse
  order.foldl (fun out range =>
    out.take range.start ++ Text.encode range.text ++ out.drop range.stop)
    (Text.encode file.source)

/-- Each planned file is replaced and read back in turn. -/
def rewriteFiles (fs : FileSystem) (filesChanged : Nat) :
    List PlannedFile → Except DaemonError Nat × FileSystem
  | [] => (.ok filesChanged, fs)
  | file :: rest =>
      match replaceViaTmp fs (.ofText file.path) (rewritten file) with
      | (.error (.writing errno), written) => (.error (.ofErrno errno), written)
      | (.error (.renaming errno), written) => (.error (.ofErrno errno), written)
      | (.ok _, written) => match written.read (.ofText file.path) with
        | .error errno => (.error (.ofErrno errno), written)
        | .ok back =>
            if back = rewritten file then rewriteFiles written (filesChanged + 1) rest
            else (.error (.protocol "lsp rename: read-back verification failed"), written)

/-- The files of an edit are planned in turn, and overlapping ranges stop the edit before any
write. -/
def plannedFiles (gate : CapabilityGate) (fs : FileSystem) (edit : Value) :
    Except DaemonError (List PlannedFile) :=
  let targets := workspaceEditTargets edit
  if targets.isEmpty then .error (.protocol "lsp rename: empty WorkspaceEdit")
  else (targets.mapM (planFile gate fs)).bind fun files =>
    if files.any fun file => overlapping (file.ranges.insertionSort rangeBefore) then
      .error (.protocol "lsp rename: overlapping edits from server")
    else .ok files

/-- An edit of the server is applied to all its files, and the counts of files and edits come
back. -/
def applyWorkspaceEdit (gate : CapabilityGate) (fs : FileSystem) (edit : Value) :
    Except DaemonError (Nat × Nat) × FileSystem :=
  match plannedFiles gate fs edit with
  | .error error => (.error error, fs)
  | .ok files => match rewriteFiles fs 0 files with
    | (.error error, written) => (.error error, written)
    | (.ok changed, written) =>
        (.ok (changed, (files.flatMap fun file => file.ranges).length), written)

/-- A rename asks the language server for an edit and applies it. -/
def rename (gate : CapabilityGate) (fs : FileSystem) (req : LspRenameRequest)
    (reply : Except DaemonError (String × String × Value)) :
    Except DaemonError LspRenameResult × FileSystem :=
  match ensurePath gate "desktop.fs.write" req.path with
  | .error error => (.error error, fs)
  | .ok _ => match reply with
    | .error error => (.error error, fs)
    | .ok (_, _, .null) => (.error (.protocol
        "lsp rename: server returned no WorkspaceEdit (not a renamable symbol?)"), fs)
    | .ok (language, server, edit) => match applyWorkspaceEdit gate fs edit with
      | (.error error, written) => (.error error, written)
      | (.ok (files, edits), written) => (.ok ⟨language, server, files, edits⟩, written)

end LspOps

end Daemon
