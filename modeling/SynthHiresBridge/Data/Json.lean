import Mathlib.Data.List.Basic

namespace Json

/-- A number is a natural, a negative integer or any other literal. -/
inductive Number where
  | posInt (value : Nat)
  | negInt (magnitude : Nat)
  | float (literal : String)
  deriving DecidableEq, Repr

/-- A JSON value keeps its object entries in their iteration order. -/
inductive Value where
  | null
  | bool (value : Bool)
  | number (value : Number)
  | string (text : String)
  | array (items : List Value)
  | object (entries : List (String × Value))

namespace Value

/-- `Value::get` looks a key up in an object. -/
def get (value : Value) (key : String) : Option Value :=
  match value with
  | .object entries => entries.lookup key
  | _ => none

/-- `Value::pointer` follows keys that name object entries only. -/
def pointer (value : Value) (keys : List String) : Option Value :=
  keys.foldlM get value

def asStr : Value → Option String
  | .string text => some text
  | _ => none

def asBool : Value → Option Bool
  | .bool value => some value
  | _ => none

/-- `Value::as_u64` reads a natural number below 2^64. -/
def asU64 : Value → Option Nat
  | .number (.posInt value) => if value < UInt64.size then some value else none
  | _ => none

/-- A signed integer of 64 bits. -/
def asI64 : Value → Option Int
  | .number (.posInt value) => if 2 * value < UInt64.size then some value else none
  | .number (.negInt magnitude) => if 2 * magnitude ≤ UInt64.size then some (-magnitude) else none
  | _ => none

/-- An unsigned integer below a bound, for the shorter integer types. -/
def asBelow (bound : Nat) : Value → Option Nat
  | .number (.posInt value) => if value < bound then some value else none
  | _ => none

def asArray : Value → Option (List Value)
  | .array items => some items
  | _ => none

def asObject : Value → Option (List (String × Value))
  | .object entries => some entries
  | _ => none

def ofNat (value : Nat) : Value := .number (.posInt value)

/-- A missing text is written as null. -/
def ofOption (text : Option String) : Value :=
  match text with
  | some text => .string text
  | none => .null

/-- A derived structure reads its fields by name from an object, or by position from an array
that has no more items than fields. -/
def fields (names : List String) (value : Value) : Option (List (Option Value)) :=
  match value with
  | .object entries => some (names.map fun name => entries.lookup name)
  | .array items =>
      if items.length ≤ names.length then some ((List.range names.length).map (items[·]?))
      else none
  | _ => none

/-- An internally tagged enumeration reads its tag from a field of an object or from the first item
of an array, and the rest holds the fields of its variant. -/
def tagged (tag : String) : Value → Option (String × Value)
  | .object entries => ((entries.lookup tag).bind asStr).map fun name =>
      (name, .object (entries.filter (·.1 ≠ tag)))
  | .array (first :: rest) => first.asStr.map fun name => (name, .array rest)
  | _ => none

def isObject : Value → Bool
  | .object _ => true
  | _ => false

/-- An optional field may be missing or null. -/
def optional {α : Type} (read : Value → Option α) (field : Option Value) : Option (Option α) :=
  match field with
  | none => some none
  | some .null => some none
  | some value => (read value).map some

/-- A field with a default may be missing, and null is no default. -/
def defaulted {α : Type} (default : α) (read : Value → Option α) (field : Option Value) :
    Option α :=
  match field with
  | none => some default
  | some value => read value

/-- A list field reads every item. -/
def listOf {α : Type} (read : Value → Option α) (value : Value) : Option (List α) :=
  value.asArray.bind fun items => items.mapM read

end Value

end Json
