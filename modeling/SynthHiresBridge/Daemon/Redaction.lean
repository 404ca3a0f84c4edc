import SynthHiresBridge.Data.JsonText
import SynthHiresBridge.Data.Text

namespace Daemon

open Json

/-- The list `SENSITIVE` of the audit line. -/
def sensitive : List String :=
  ["content", "content_base64", "replacement", "replacementcontent", "targetcontent", "code",
    "command", "token", "password", "secret", "apikey", "api_key", "authorization", "cookie",
    "body", "headers", "stdout", "stderr", "output", "diff"]

/-- A key in lower case without underscores and dashes. -/
def normalizeKey (key : String) : List Char :=
  (key.toList.map Char.toLower).filter fun char => char ≠ '_' ∧ char ≠ '-'

/-- A normalized key equals a name of the list or ends with one. -/
def isSensitive (key : String) : Bool :=
  sensitive.any fun name =>
    normalizeKey key == name.toList || name.toList.isSuffixOf (normalizeKey key)

/-- The characters that start before the byte 500. -/
def shortHead (offset : Nat) : List Char → List Char
  | [] => []
  | char :: rest =>
      if offset < 500 then char :: shortHead (offset + char.utf8Size) rest else []

/-- A text of more than 500 bytes is cut between two characters. -/
def truncateText (text : String) : String :=
  if 500 < (Text.encode text).length then
    String.ofList (shortHead 0 text.toList) ++ "…[truncated " ++ toString text.toList.length ++
      " chars]"
  else text

mutual

def redact : Value → Value
  | .object entries => .object (redactEntries entries)
  | .array items => .array (redactItems items)
  | .string text => .string (truncateText text)
  | .null => .null
  | .bool value => .bool value
  | .number value => .number value

def redactItems : List Value → List Value
  | [] => []
  | item :: rest => redact item :: redactItems rest

def redactEntries : List (String × Value) → List (String × Value)
  | [] => []
  | (key, value) :: rest =>
      (key, if isSensitive key then .string "[redacted]" else redact value) :: redactEntries rest

end

def redactAuditParams (params : Value) : String := String.ofList (redact params).text

/-- The line of the audit trail for a request at a local time. -/
def auditLine (time capability : String) (params : Value) : String :=
  "[" ++ time ++ "] CAPABILITY: " ++ capability ++ " PARAMS: " ++ redactAuditParams params ++ "\n"

end Daemon
