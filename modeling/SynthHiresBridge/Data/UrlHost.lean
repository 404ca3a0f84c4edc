import Mathlib.Algebra.Group.Nat.Defs
import SynthHiresBridge.Data.Cut
import SynthHiresBridge.Data.Utf8

namespace UrlHost

/-- The host of a URL is a name or an address. -/
inductive Host where
  | domain (name : String)
  | ipv4 (address : BitVec 32)
  | ipv6 (address : BitVec 128)
  deriving DecidableEq

def hexDigit (char : Char) : Option Nat :=
  let code := char.toNat
  if 48 ≤ code ∧ code ≤ 57 then some (code - 48)
  else if 97 ≤ code ∧ code ≤ 102 then some (code - 97 + 10)
  else if 65 ≤ code ∧ code ≤ 70 then some (code - 65 + 10)
  else none

def digit (radix : Nat) (char : Char) : Option Nat :=
  (hexDigit char).filter (· < radix)

def ofDigits (radix : Nat) (digits : List Nat) : Nat :=
  digits.foldl (fun value digit => value * radix + digit) 0

/-- The front of a number tells whether it is hexadecimal, octal or decimal. -/
def radixOf : List Char → Nat × List Char
  | '0' :: 'x' :: rest => (16, rest)
  | '0' :: 'X' :: rest => (16, rest)
  | '0' :: char :: rest => (8, char :: rest)
  | text => (10, text)

def ipv4Number (text : List Char) : Option Nat :=
  if text = [] then none
  else ((radixOf text).2.mapM (digit (radixOf text).1)).map (ofDigits (radixOf text).1)

/-- One dot at the end of an address or a name is not counted. -/
def labels (text : List Char) : List (List Char) :=
  let parts := text.splitOn '.'
  if parts.getLast? = some [] ∧ parts.length ≠ 1 then parts.dropLast else parts

def endsInNumber (text : List Char) : Bool :=
  (labels text).getLast?.any fun last =>
    decide (last ≠ []) && last.all Char.isDigit || (ipv4Number last).isSome

/-- The last number of an address fills all bytes that the numbers before it left. -/
def parseIpv4 (text : List Char) : Option (BitVec 32) :=
  if (labels text).length > 4 then none
  else
    match (labels text).mapM ipv4Number with
    | none => none
    | some numbers =>
        let last := numbers.getLast?.getD 0
        if numbers.dropLast.any (· > 255) ∨ last ≥ 256 ^ (5 - numbers.length) then none
        else
          some (BitVec.ofNat 32 (ofDigits 256 numbers.dropLast * 256 ^ (5 - numbers.length) + last))

/-- A byte in an IPv6 address has no zero before its digits. -/
def embeddedByte (text : List Char) : Option Nat :=
  if text = [] ∨ (text.head? = some '0' ∧ text.length ≠ 1) then none
  else ((text.mapM (digit 10)).map (ofDigits 10)).filter (· ≤ 255)

def embeddedIpv4 (text : List Char) : Option (List Nat) :=
  match (text.splitOn '.').mapM embeddedByte with
  | some [first, second, third, fourth] => some [first * 256 + second, third * 256 + fourth]
  | _ => none

/-- The pieces that were read come with the place where zeros are filled in. -/
def ipv6Pieces : Nat → List Char → List Nat → Option Nat → Option (List Nat × Option Nat)
  | 0, _, _, _ => none
  | _, [], pieces, compress => some (pieces, compress)
  | fuel + 1, char :: rest, pieces, compress =>
      if pieces.length = 8 then none
      else if char = ':' then
        if compress.isSome then none
        else ipv6Pieces fuel rest (pieces ++ [0]) (some (pieces.length + 1))
      else
        let digits := ((char :: rest).take 4).takeWhile fun char => (hexDigit char).isSome
        let value := ofDigits 16 (digits.filterMap hexDigit)
        match (char :: rest).drop digits.length with
        | [] => ipv6Pieces fuel [] (pieces ++ [value]) compress
        | '.' :: _ =>
            if digits = [] ∨ pieces.length > 6 then none
            else (embeddedIpv4 (char :: rest)).map fun more => (pieces ++ more, compress)
        | ':' :: next :: more => ipv6Pieces fuel (next :: more) (pieces ++ [value]) compress
        | _ => none

def parseIpv6 (text : List Char) : Option (BitVec 128) :=
  let fuel := text.length + 1
  let read := match text with
    | ':' :: ':' :: rest => ipv6Pieces fuel rest [0] (some 1)
    | ':' :: _ => none
    | _ => ipv6Pieces fuel text [] none
  match read with
  | none => none
  | some (pieces, none) =>
      if pieces.length = 8 then some (BitVec.ofNat 128 (ofDigits 65536 pieces)) else none
  | some (pieces, some compress) =>
      some (BitVec.ofNat 128 (ofDigits 65536
        (pieces.take compress ++ List.replicate (8 - pieces.length) 0 ++ pieces.drop compress)))

def forbidden (char : Char) : Bool :=
  char.toNat ≤ 0x20 || char.toNat = 0x7F || "#/:<>?@[\\]^|%".toList.contains char

/-- The host parser of the URL standard, for a scheme that has hosts. The first argument decodes a
name and maps it to ASCII. -/
def parseHost (domainToAscii : String → Option String) (text : String) : Option Host :=
  match text.toList with
  | '[' :: rest =>
      if rest.getLast? = some ']' then (parseIpv6 rest.dropLast).map .ipv6 else none
  | _ =>
      match domainToAscii text with
      | none => none
      | some domain =>
          if domain = "" ∨ domain.toList.any forbidden then none
          else if endsInNumber domain.toList then (parseIpv4 domain.toList).map .ipv4
          else some (.domain domain)

def ipv4Text (address : BitVec 32) : String :=
  String.intercalate "." ((List.range 4).map fun place =>
    toString (address.toNat / 256 ^ (3 - place) % 256))

def piecesOf (address : BitVec 128) : List Nat :=
  (List.range 8).map fun place => address.toNat / 65536 ^ (7 - place) % 65536

def hexText (piece : Nat) : String :=
  String.ofList (Nat.toDigits 16 piece)

/-- The first of the longest runs of zeros, with its length. -/
def longestZeros (pieces : List Nat) : Nat × Nat :=
  (List.range pieces.length).foldl (fun best start =>
    let run := ((pieces.drop start).takeWhile (· = 0)).length
    if best.2 < run then (start, run) else best) (0, 0)

def ipv6Text (address : BitVec 128) : String :=
  let pieces := piecesOf address
  let zeros := longestZeros pieces
  if zeros.2 ≤ 1 then String.intercalate ":" (pieces.map hexText)
  else
    String.intercalate ":" ((pieces.take zeros.1).map hexText) ++ "::" ++
      String.intercalate ":" ((pieces.drop (zeros.1 + zeros.2)).map hexText)

/-- The serialisation of a host. -/
def Host.text : Host → String
  | .domain name => name
  | .ipv4 address => ipv4Text address
  | .ipv6 address => "[" ++ ipv6Text address ++ "]"

/-- An IPv4 address has a second form as an IPv6 address. -/
def mapped (address : BitVec 32) : BitVec 128 :=
  0xFFFF#96 ++ address

end UrlHost

namespace Percent

def unreserved (byte : UInt8) : Bool :=
  let char := Char.ofNat byte.toNat
  byte.toNat < 128 && (char.isAlphanum || ['-', '.', '_', '~'].contains char)

def hexDigit (digit : Nat) : Char :=
  (Nat.digitChar digit).toUpper

/-- A byte stands for itself, or it is written in hexadecimal after a percent sign. -/
def encodeByte (byte : UInt8) : List Char :=
  if unreserved byte then [Char.ofNat byte.toNat]
  else ['%', hexDigit (byte.toNat / 16), hexDigit (byte.toNat % 16)]

/-- All bytes of a text are encoded except the unreserved ones. -/
def encode (text : String) : List Char :=
  (Text.encode text).flatMap encodeByte

/-- The characters that an encoded text can have. -/
def plain (char : Char) : Bool :=
  char.toNat < 128 && (char.isAlphanum || ['-', '.', '_', '~', '%'].contains char)

theorem plain_encodeByte (byte : UInt8) : ∀ char ∈ encodeByte byte, plain char = true := by
  have each : ∀ code < 256, (encodeByte (UInt8.ofNat code)).all plain = true := by
    decide +kernel
  have same : UInt8.ofNat byte.toNat = byte := UInt8.ofNat_toNat
  rw [← same]
  exact List.all_eq_true.mp (each byte.toNat byte.toNat_lt)

theorem plain_encode {text : String} {char : Char} (member : char ∈ encode text) :
    plain char = true := by
  obtain ⟨byte, -, inside⟩ := List.mem_flatMap.mp member
  exact plain_encodeByte byte char inside

end Percent
