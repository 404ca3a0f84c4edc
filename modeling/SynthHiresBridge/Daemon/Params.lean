import SynthHiresBridge.Daemon.LspOps

namespace Daemon

open Json

/-- A read request has a path, a limit and an annotation flag. -/
def FsReadRequest.ofParams (params : Value) : Option FsReadRequest :=
  match params.fields ["path", "max_bytes", "annotate"] with
  | some [path, maxBytes, annotate] => do
      return ⟨← path.bind Value.asStr, ← Value.optional Value.asU64 maxBytes,
        ← Value.optional Value.asBool annotate⟩
  | _ => none

def FsWriteRequest.ofParams (params : Value) : Option FsWriteRequest :=
  match params.fields ["path", "content"] with
  | some [path, content] => do return ⟨← path.bind Value.asStr, ← content.bind Value.asStr⟩
  | _ => none

def FsDeleteRequest.ofParams (params : Value) : Option FsDeleteRequest :=
  match params.fields ["path"] with
  | some [path] => do return ⟨← path.bind Value.asStr⟩
  | _ => none

def FsVerifyRequest.ofParams (params : Value) : Option FsVerifyRequest :=
  match params.fields ["path"] with
  | some [path] => do return ⟨← path.bind Value.asStr⟩
  | _ => none

def FsListRequest.ofParams (params : Value) : Option FsListRequest :=
  match params.fields ["path"] with
  | some [path] => do return ⟨← Value.optional Value.asStr path⟩
  | _ => none

def HashlineEdit.ofValue (value : Value) : Option HashlineEdit :=
  match value.fields ["start_line", "end_line", "hashes", "replacement"] with
  | some [startLine, endLine, hashes, replacement] => do
      return ⟨← startLine.bind Value.asU64, ← Value.optional Value.asU64 endLine,
        ← Value.optional Value.asStr hashes,
        ← Value.defaulted [] (Value.listOf Value.asStr) replacement⟩
  | _ => none

def FsPatchRequest.ofParams (params : Value) : Option FsPatchRequest :=
  match params.fields ["path", "edits"] with
  | some [path, edits] => do
      return ⟨← path.bind Value.asStr, ← edits.bind (Value.listOf HashlineEdit.ofValue)⟩
  | _ => none

structure FsWatchRequest where
  path : String
  durationMs : Option Nat
  recursive : Bool

def FsWatchRequest.ofParams (params : Value) : Option FsWatchRequest :=
  match params.fields ["path", "duration_ms", "recursive"] with
  | some [path, durationMs, recursive] => do
      return ⟨← path.bind Value.asStr, ← Value.optional Value.asU64 durationMs,
        ← Value.defaulted false Value.asBool recursive⟩
  | _ => none

def AstEditRequest.ofParams (params : Value) : Option AstEditRequest :=
  match params.fields ["path", "pattern", "replacement", "language"] with
  | some [path, pattern, replacement, language] => do
      return ⟨← path.bind Value.asStr, ← pattern.bind Value.asStr, ← replacement.bind Value.asStr,
        ← Value.optional Value.asStr language⟩
  | _ => none

def LspRenameRequest.ofParams (params : Value) : Option LspRenameRequest :=
  match params.fields ["path", "line", "character", "newName", "workspace"] with
  | some [path, line, character, newName, workspace] => do
      return ⟨← path.bind Value.asStr, ← line.bind Value.asU64, ← character.bind Value.asU64,
        ← newName.bind Value.asStr, ← Value.optional Value.asStr workspace⟩
  | _ => none

def FsReadResult.toValue (result : FsReadResult) : Value :=
  .object [("content_base64", .string result.contentBase64), ("size", .ofNat result.size),
    ("truncated", .bool result.truncated)]

def FsWriteResult.toValue (result : FsWriteResult) : Value :=
  .object [("bytes_written", .ofNat result.bytesWritten), ("verified", .bool result.verified)]

def FsPatchResult.toValue (result : FsPatchResult) : Value :=
  .object [("bytes_written", .ofNat result.bytesWritten), ("verified", .bool result.verified),
    ("applied", .array (result.applied.map fun edit => .object
      [("start_line", .ofNat edit.startLine), ("end_line", .ofNat edit.endLine),
        ("lines_added", .ofNat edit.linesAdded)]))]

def FsVerifyResult.toValue (result : FsVerifyResult) : Value :=
  .object [("exists", .bool result.present), ("is_dir", .bool result.isDir),
    ("readable", .bool result.readable), ("writable", .bool result.writable)]

def FsListResult.toValue (result : FsListResult) : Value :=
  .object [("parent", Value.ofOption result.parent),
    ("entries", .array (result.entries.map fun entry => .object
      [("name", .string entry.name), ("path", .string entry.path), ("is_dir", .bool entry.isDir)]))]

def AstEditResult.toValue (result : AstEditResult) : Value :=
  .object [("replacements", .ofNat result.replacements),
    ("bytesWritten", .ofNat result.bytesWritten), ("verified", .bool result.verified)]

def LspRenameResult.toValue (result : LspRenameResult) : Value :=
  .object [("language", .string result.language), ("server", .string result.server),
    ("filesChanged", .ofNat result.filesChanged), ("editsApplied", .ofNat result.editsApplied)]

end Daemon
