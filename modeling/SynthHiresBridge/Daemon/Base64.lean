import Mathlib.Algebra.Group.Nat.Defs
import Mathlib.Data.List.Basic
import SynthHiresBridge.Data.Text

namespace Daemon.Base64

def alphabet : List Char :=
  "ABCDEFGHIJKLMNOPQRSTUVWXYZabcdefghijklmnopqrstuvwxyz0123456789+/".toList

def symbol (bits : Nat) : Char := alphabet.getD (bits % 64) '='

/-- Three bytes give four symbols, and padding completes the last group. -/
def encodeChars : List UInt8 → List Char
  | first :: second :: third :: rest =>
      let n := first.toNat * 2 ^ 16 + second.toNat * 2 ^ 8 + third.toNat
      symbol (n / 2 ^ 18) :: symbol (n / 2 ^ 12) :: symbol (n / 2 ^ 6) :: symbol n ::
        encodeChars rest
  | [first, second] =>
      let n := first.toNat * 2 ^ 16 + second.toNat * 2 ^ 8
      [symbol (n / 2 ^ 18), symbol (n / 2 ^ 12), symbol (n / 2 ^ 6), '=']
  | [first] =>
      let n := first.toNat * 2 ^ 16
      [symbol (n / 2 ^ 18), symbol (n / 2 ^ 12), '=', '=']
  | [] => []

def base64Encode (bytes : List UInt8) : String := String.ofList (encodeChars bytes)

/-- The decoder looks a symbol up in its table. -/
def symbolBits (char : Char) : Option Nat :=
  let index := alphabet.findIdx (· == char)
  if index < 64 then some index else none

/-- Two symbols start a group, and the third and the fourth add one byte each. -/
def group : List Nat → Option (List UInt8)
  | [] => some []
  | [first, second] => some [UInt8.ofNat (first * 4 + second / 16)]
  | [first, second, third] =>
      some [UInt8.ofNat (first * 4 + second / 16), UInt8.ofNat (second * 16 + third / 4)]
  | [first, second, third, fourth] =>
      some [UInt8.ofNat (first * 4 + second / 16), UInt8.ofNat (second * 16 + third / 4),
        UInt8.ofNat (third * 64 + fourth)]
  | _ => none

/-- The loop fills a chunk of four symbols and stops at the padding. -/
def decodeChars (filled : List Nat) : List Char → Option (List UInt8)
  | [] => group filled
  | '=' :: _ => group filled
  | char :: rest => match symbolBits char with
      | none => none
      | some bits =>
          if filled.length = 3 then
            (group (filled ++ [bits])).bind fun bytes =>
              (decodeChars [] rest).map (bytes ++ ·)
          else decodeChars (filled ++ [bits]) rest

def base64Decode (text : String) : Option (List UInt8) :=
  decodeChars [] (text.toList.filter fun char => !" \t\r\n".toList.contains char)

example : base64Encode [104, 105] = "aGk=" := by decide

example : base64Decode "aGk=" = some [104, 105] := by decide

/-- The symbol of the low six bits of a word. -/
def pick (word : UInt32) : Char := alphabet.getD (word &&& 0x3f).toNat '='

namespace Fs

/-- What is left after the whole groups ends with padding. -/
def encodeTail (bytes : List UInt8) (i : Nat) : List Char :=
  if i < bytes.length then
    let n := (bytes.getD i 0).toUInt32 <<< 16
    if i + 1 < bytes.length then
      let m := n ||| (bytes.getD (i + 1) 0).toUInt32 <<< 8
      [pick (n >>> 18), pick (m >>> 12), pick (m >>> 6), '=']
    else [pick (n >>> 18), pick (n >>> 12), '=', '=']
  else []

/-- Each turn of `while i + 3 <= bytes.len()` encodes one group. -/
def encodeLoop (bytes : List UInt8) (i : Nat) (out : List Char) : List Char :=
  if i + 3 ≤ bytes.length then
    let n := (bytes.getD i 0).toUInt32 <<< 16 ||| (bytes.getD (i + 1) 0).toUInt32 <<< 8 |||
      (bytes.getD (i + 2) 0).toUInt32
    encodeLoop bytes (i + 3)
      (out ++ [pick (n >>> 18), pick (n >>> 12), pick (n >>> 6), pick n])
  else out ++ encodeTail bytes i
termination_by bytes.length - i

def base64Encode (bytes : List UInt8) : String := String.ofList (encodeLoop bytes 0 [])

/-- The table holds 255 for a byte that is no symbol. -/
def table (byte : UInt8) : UInt8 :=
  let index := alphabet.findIdx fun char => char.toNat == byte.toNat
  if index < 64 then UInt8.ofNat index else 255

/-- The bytes of a chunk that the input leaves, of which one symbol alone gives none. -/
def decodeEnd : List UInt8 → Option (List UInt8)
  | [] => some []
  | [first, second] => some [first <<< 2 ||| second >>> 4]
  | [first, second, third] =>
      some [first <<< 2 ||| second >>> 4, second <<< 4 ||| third >>> 2]
  | _ => none

def decodeLoop : List UInt8 → List UInt8 → List UInt8 → Option (List UInt8)
  | [], chunk, out => (decodeEnd chunk).map (out ++ ·)
  | byte :: bytes, chunk, out =>
      if byte = 0x3D then (decodeEnd chunk).map (out ++ ·)
      else
        let v := table byte
        if v = 255 then none
        else match chunk with
          | [first, second, third] => decodeLoop bytes []
              (out ++ [first <<< 2 ||| second >>> 4, second <<< 4 ||| third >>> 2,
                third <<< 6 ||| v])
          | _ => decodeLoop bytes (chunk ++ [v]) out

/-- Space, tab, carriage return and line feed are dropped before the loop. -/
def dropped (byte : UInt8) : Bool := [0x20, 0x09, 0x0D, 0x0A].contains byte

def base64Decode (input : String) : Option (List UInt8) :=
  decodeLoop ((Text.encode input).filter fun byte => !dropped byte) [] []

example : base64Decode "aG\nk=" = some [104, 105] := by decide

end Fs

namespace Browser

/-- The chunks of `data.chunks(3)`. -/
def chunks : List UInt8 → List (List UInt8)
  | first :: second :: third :: rest => [first, second, third] :: chunks rest
  | [] => []
  | short => [short]

def encodeChunk (chunk : List UInt8) : List Char :=
  let b := [chunk.getD 0 0, chunk.getD 1 0, chunk.getD 2 0]
  let n := (b.getD 0 0).toUInt32 <<< 16 ||| (b.getD 1 0).toUInt32 <<< 8 ||| (b.getD 2 0).toUInt32
  [pick (n >>> 18), pick (n >>> 12), if 1 < chunk.length then pick (n >>> 6) else '=',
    if 2 < chunk.length then pick n else '=']

def base64Encode (data : List UInt8) : String := String.ofList ((chunks data).flatMap encodeChunk)

example : base64Encode [104, 105] = "aGk=" := by decide

end Browser

end Daemon.Base64
