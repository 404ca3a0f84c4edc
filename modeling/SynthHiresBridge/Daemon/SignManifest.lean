import Mathlib.Data.List.Sort
import SynthHiresBridge.Daemon.Autoupdate

namespace Daemon

open Json

/-- A release asset serves a target, and its key in the manifest may be given. -/
structure AssetRow where
  asset : String
  target : String
  keyOverride : Option String

/-- Each target has one row, and the universal binary has one for each of its two targets. -/
def manifestAssets : List AssetRow :=
  [⟨"synthhires-bridge-linux-x64", "x86_64-unknown-linux-gnu", none⟩,
    ⟨"synthhires-bridge-linux-arm64", "aarch64-unknown-linux-gnu", none⟩,
    ⟨"synthhires-bridge-macos", "x86_64-apple-darwin", some "synthhires-bridge-macos-x64"⟩,
    ⟨"synthhires-bridge-macos", "aarch64-apple-darwin", some "synthhires-bridge-macos-arm64"⟩,
    ⟨"synthhires-bridge-windows-x64-user.exe", "x86_64-pc-windows-msvc", none⟩]

/-- The last dot of a name is dropped with what follows it. -/
def dropExtension (name : String) : String :=
  let reversed := name.toList.reverse
  let extension := reversed.takeWhile (· ≠ '.')
  match reversed.drop extension.length with
  | '.' :: front => if extension = [] then name else String.ofList front.reverse
  | _ => name

/-- A time of day loses the fraction of its seconds. -/
def dropFraction (time : String) : String :=
  match time.toList.reverse with
  | 'Z' :: rest =>
      let digits := rest.takeWhile Char.isDigit
      match rest.drop digits.length with
      | '.' :: front => if digits = [] then time else String.ofList (front.reverse ++ ['Z'])
      | _ => time
  | _ => time

def AssetRow.key (row : AssetRow) : String := row.keyOverride.getD (dropExtension row.asset)

/-- A signing run has its arguments, the assets by their names, the clock and the signing key. -/
structure SignRun where
  version : String
  tag : String
  repo : String
  now : String
  assets : String → Option (List UInt8)
  sha256 : List UInt8 → String
  sign : Option (List UInt8 → List UInt8)

def ArtifactEntry.toValue (entry : ArtifactEntry) : Value :=
  .object [("sha256", .string entry.sha256), ("target", .string entry.target),
    ("url", .string entry.url)]

def hexEncode (bytes : List UInt8) : String :=
  String.ofList (bytes.flatMap fun byte => [hexDigit (byte.toNat / 16), hexDigit (byte.toNat % 16)])

/-- A signed manifest is written after the bytes of its canonical form are signed. -/
structure SignedFile where
  canonicalBytes : List UInt8
  file : List UInt8

namespace SignRun

variable (script : SignRun)

def entryOf (row : AssetRow) (bytes : List UInt8) : ArtifactEntry where
  target := row.target
  sha256 := script.sha256 bytes
  url := "https://github.com/" ++ script.repo ++ "/releases/download/" ++ script.tag ++ "/" ++
    row.asset

/-- An asset that is not present is skipped. -/
def addArtifact (artifacts : Table String ArtifactEntry) (row : AssetRow) :
    Table String ArtifactEntry :=
  match script.assets row.asset with
  | none => artifacts
  | some bytes => artifacts.insert row.key (script.entryOf row bytes)

def artifacts : Table String ArtifactEntry := manifestAssets.foldl script.addArtifact ∅

def names : List String := script.artifacts.keys.insertionSort (· ≤ ·)

def sortedArtifacts : List (String × ArtifactEntry) :=
  script.names.filterMap fun name =>
    (script.artifacts.lookup name).map fun entry => (name, entry)

/-- The entries of the canonical form are in alphabetical order. -/
def canonical : List (String × Value) :=
  [("artifacts", .object (script.sortedArtifacts.map fun entry => (entry.1, entry.2.toValue))),
    ("publishedAt", .string (dropFraction script.now)), ("version", .string script.version)]

def canonicalBytes : List UInt8 :=
  Text.encode (String.ofList (Value.object script.canonical).text)

/-- The signature comes after the canonical entries. -/
def signedValue (signature : List UInt8) : Value :=
  .object (script.canonical ++ [("signature", .string (hexEncode signature))])

def run : Option SignedFile :=
  if script.names = [] then none
  else script.sign.map fun sign =>
    ⟨script.canonicalBytes, Text.encode (String.ofList
      ((script.signedValue (sign script.canonicalBytes)).indented 0 ++ ['\n']))⟩

end SignRun

example : dropExtension "synthhires-bridge-windows-x64-user.exe" =
    "synthhires-bridge-windows-x64-user" := by decide

example : dropFraction "2026-07-28T00:00:00.123Z" = "2026-07-28T00:00:00Z" := by decide

end Daemon
