import SynthHiresBridge.Data.Json

namespace Json

/-- A hexadecimal digit in lower case. -/
def hexDigit (digit : Nat) : Char := Nat.digitChar digit

/-- The short escapes of a string, and the long ones of the other control characters. -/
def escapeChar (c : Char) : List Char :=
  if c = '"' then ['\\', '"']
  else if c = '\\' then ['\\', '\\']
  else if c = Char.ofNat 8 then ['\\', 'b']
  else if c = Char.ofNat 12 then ['\\', 'f']
  else if c = '\n' then ['\\', 'n']
  else if c = '\r' then ['\\', 'r']
  else if c = '\t' then ['\\', 't']
  else if c.toNat < 32 then
    ['\\', 'u', '0', '0', hexDigit (c.toNat / 16), hexDigit (c.toNat % 16)]
  else [c]

/-- A string stands between quotation marks. -/
def stringText (text : String) : List Char := '"' :: (text.toList.flatMap escapeChar ++ ['"'])

def Number.text : Number → List Char
  | .posInt value => Nat.toDigits 10 value
  | .negInt magnitude => '-' :: Nat.toDigits 10 magnitude
  | .float literal => literal.toList

namespace Value

mutual

/-- The compact text of a value. -/
def text : Value → List Char
  | .null => "null".toList
  | .bool true => "true".toList
  | .bool false => "false".toList
  | .number value => value.text
  | .string value => stringText value
  | .array items => '[' :: itemsText items
  | .object entries => '\x7b' :: entriesText entries

/-- The items of an array up to its closing bracket. -/
def itemsText : List Value → List Char
  | [] => [']']
  | [last] => last.text ++ [']']
  | item :: rest => item.text ++ ',' :: itemsText rest

/-- The entries of an object up to its closing brace. -/
def entriesText : List (String × Value) → List Char
  | [] => ['\x7d']
  | [(key, last)] => stringText key ++ ':' :: (last.text ++ ['\x7d'])
  | (key, value) :: rest => stringText key ++ ':' :: (value.text ++ ',' :: entriesText rest)

end

/-- A new line is indented by two spaces for each level. -/
def newline (depth : Nat) : List Char := '\n' :: List.replicate (2 * depth) ' '

mutual

/-- The text of a value with one entry on each line, as `JSON.stringify` indents it. -/
def indented (depth : Nat) : Value → List Char
  | .array [] => ['[', ']']
  | .array (item :: rest) =>
      '[' :: (indentedItems (depth + 1) (item :: rest) ++ (newline depth ++ [']']))
  | .object [] => ['\x7b', '\x7d']
  | .object (entry :: rest) =>
      '\x7b' :: (indentedEntries (depth + 1) (entry :: rest) ++ (newline depth ++ ['\x7d']))
  | .null => text .null
  | .bool value => text (.bool value)
  | .number value => text (.number value)
  | .string value => text (.string value)

def indentedItems (depth : Nat) : List Value → List Char
  | [] => []
  | [last] => newline depth ++ last.indented depth
  | item :: rest => newline depth ++ item.indented depth ++ ',' :: indentedItems depth rest

def indentedEntries (depth : Nat) : List (String × Value) → List Char
  | [] => []
  | [(key, last)] => newline depth ++ (stringText key ++ ':' :: ' ' :: last.indented depth)
  | (key, value) :: rest =>
      newline depth ++ (stringText key ++ ':' :: ' ' :: value.indented depth) ++
        ',' :: indentedEntries depth rest

end

end Value

end Json
