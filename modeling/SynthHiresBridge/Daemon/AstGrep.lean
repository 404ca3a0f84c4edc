import Mathlib.Data.List.Lex
import Mathlib.Data.Prod.Lex
import Mathlib.Data.String.Basic
import SynthHiresBridge.Daemon.AstOps
import SynthHiresBridge.Data.CharBoundary
import SynthHiresBridge.Data.Cut

namespace Daemon

open Posix

/-- A file extension stands for most of the languages, and the library knows more of them. -/
inductive SupportLang where
  | rust | typeScript | tsx | javaScript | python | go | java | kotlin | swift | c | cpp | cSharp
  | ruby | php | lua | json | yaml | html | css | scala | bash | nix | solidity | elixir | haskell
  | other (name : String)
  deriving DecidableEq

/-- Lines and columns of a match count from zero. -/
structure Found where
  startLine : Nat
  startColumn : Nat
  endLine : Nat
  endColumn : Nat
  text : String
  deriving DecidableEq

/-- The library names its languages and compiles patterns, and a match is a part of its source. -/
structure AstLibrary where
  parse : String → Option SupportLang
  display : SupportLang → String
  compile : (pattern : String) → SupportLang → Except String (String → List Found)
  within : ∀ {pattern lang findAll source found}, compile pattern lang = .ok findAll →
    found ∈ findAll source → found.text.toList <:+: source.toList

/-- A disk holds a file system, and it may refuse to open what stands there. -/
structure Disk where
  fs : FileSystem
  refuses : PathBuf → Option Errno

/-- A listing tells of each name whether it is a directory, and it follows no link. -/
def Disk.readDir (disk : Disk) (dir : PathBuf) : Except Errno (List (String × Bool)) :=
  match disk.refuses dir with
  | some errno => .error errno
  | none => (disk.fs.canonicalize dir).bind fun real =>
      if disk.fs.lookup real = some .dir then
        .ok ((disk.fs.children real).map fun name =>
          (name, decide (disk.fs.lookup (real ++ [name]) = some .dir)))
      else .error .notADirectory

def Disk.readToString (disk : Disk) (path : PathBuf) : Except DaemonError String :=
  match disk.refuses path with
  | some errno => .error (.ofErrno errno)
  | none => match disk.fs.read path with
      | .error errno => .error (.ofErrno errno)
      | .ok bytes => match Text.strict bytes with
          | none => .error (.io "stream did not contain valid UTF-8")
          | some text => .ok text

structure AstGrepRequest where
  path : String
  pattern : String
  language : Option String
  limit : Option Nat

structure AstMatch where
  startLine : Nat
  startColumn : Nat
  endLine : Nat
  endColumn : Nat
  text : String
  file : Option String
  deriving DecidableEq

structure AstGrepResult where
  language : String
  found : List AstMatch
  truncated : Bool
  deriving DecidableEq

namespace AstOps

def maxMatches : Nat := 100
def maxMatchText : Nat := 500
def maxWalkDepth : Nat := 10
def maxWalkFiles : Nat := 2000

def skipDirs : List String :=
  ["node_modules", ".git", "target", "dist", "build", ".next", ".venv", "venv", "vendor",
    "__pycache__", ".cache"]

def langFromExtension (ext : String) : Option SupportLang :=
  match String.ofList (Text.lower ext.toList) with
  | "rs" => some .rust
  | "ts" => some .typeScript
  | "tsx" => some .tsx
  | "js" | "mjs" | "cjs" | "jsx" => some .javaScript
  | "py" => some .python
  | "go" => some .go
  | "java" => some .java
  | "kt" | "kts" => some .kotlin
  | "swift" => some .swift
  | "c" | "h" => some .c
  | "cc" | "cpp" | "cxx" | "hpp" | "hh" => some .cpp
  | "cs" => some .cSharp
  | "rb" => some .ruby
  | "php" => some .php
  | "lua" => some .lua
  | "json" => some .json
  | "yaml" | "yml" => some .yaml
  | "html" | "htm" => some .html
  | "css" => some .css
  | "scala" => some .scala
  | "sh" | "bash" | "zsh" => some .bash
  | "nix" => some .nix
  | "sol" => some .solidity
  | "ex" | "exs" => some .elixir
  | "hs" => some .haskell
  | _ => none

/-- A file of a walk is checked by its spelling, as the path of a request is. -/
def ensureFile (gate : CapabilityGate) (capability : String) (path : PathBuf) :
    Except DaemonError Unit :=
  match gate.checkPath capability path with
  | .allow => .ok ()
  | .requireConsent =>
      .error (.capabilityDenied (capability ++ " requires consent for " ++ path.display))
  | .deny => .error (.capabilityDenied capability)

def compilePattern (host : Host) (library : AstLibrary) (pattern : String) (lang : SupportLang) :
    Except DaemonError (String → List Found) :=
  match library.compile pattern lang with
  | .ok findAll => .ok findAll
  | .error error =>
      .error (.protocol ("ast: invalid pattern " ++ host.debugText pattern ++ ": " ++ error))

/-- A name that is not blank and that the library knows. -/
def explicitLang (library : AstLibrary) (language : Option String) : Option SupportLang :=
  ((language.map Text.trim).filter (· ≠ "")).bind library.parse

/-- The name of a language comes before the extension of the file. -/
def resolveLang (host : Host) (library : AstLibrary) (explicit : Option String) (path : String) :
    Except DaemonError SupportLang :=
  match explicitLang library explicit with
  | some lang => .ok lang
  | none => match langFromExtension ((PathBuf.ofText path).extension.getD "") with
      | some lang => .ok lang
      | none => .error (.protocol ("ast: cannot determine language for " ++ path ++
          " (passed language " ++ host.debugText (explicit.getD "none") ++ "); pass 'language' " ++
          "explicitly (rust, typescript, tsx, javascript, python, go, java, kotlin, swift, c, " ++
          "cpp, csharp, ruby, php, lua, json, yaml, html, css, scala, bash, nix, solidity, " ++
          "elixir, haskell)"))

/-- `String::truncate` panics where its length is inside a character. -/
def truncate (text : String) (length : Nat) : Option String :=
  if text.utf8ByteSize < length then some text
  else if Text.isCharBoundary (Text.encode text) length then
    Text.strict ((Text.encode text).take length)
  else none

/-- A long match is cut at a number of bytes, and an ellipsis follows. -/
def matchText (text : String) : Option String :=
  if maxMatchText < text.utf8ByteSize then (truncate text maxMatchText).map (· ++ "…")
  else some text

/-- Lines and columns of a report count from one. -/
def astMatch (file : Option String) (found : Found) (text : String) : AstMatch :=
  ⟨found.startLine + 1, found.startColumn + 1, found.endLine + 1, found.endColumn + 1, text, file⟩

/-- The matches of one source are reported up to the cap. Without a result the daemon panics. -/
def report (cap : Nat) (file : Option String) :
    List Found → List AstMatch → Option (List AstMatch × Bool)
  | [], out => some (out, false)
  | found :: rest, out =>
      if cap ≤ out.length then some (out, true)
      else (matchText found.text).bind fun text =>
        report cap file rest (out ++ [astMatch file found text])

def capOf (req : AstGrepRequest) : Nat :=
  Nat.min (req.limit.getD maxMatches) maxMatches

def langText (host : Host) (library : AstLibrary) (lang : SupportLang) : String :=
  host.lowercase (library.display lang)

/-- A file is kept where its extension stands for the language, or for any. -/
def keeps (lang : Option SupportLang) (path : PathBuf) : Bool :=
  let known := langFromExtension (path.extension.getD "")
  match lang with
  | some lang => known = some lang
  | none => known.isSome

/-- The entries of one directory are taken in their order, until enough files are kept. -/
def collectEntries (deeper : PathBuf → List PathBuf → Except DaemonError (List PathBuf))
    (lang : Option SupportLang) (dir : PathBuf) :
    List (String × Bool) → List PathBuf → Except DaemonError (List PathBuf)
  | [], out => .ok out
  | (name, true) :: rest, out =>
      if skipDirs.contains name then collectEntries deeper lang dir rest out
      else (deeper (dir.child name) out).bind fun out => collectEntries deeper lang dir rest out
  | (name, false) :: rest, out =>
      if keeps lang (dir.child name) then
        if maxWalkFiles ≤ (out ++ [dir.child name]).length then .ok (out ++ [dir.child name])
        else collectEntries deeper lang dir rest (out ++ [dir.child name])
      else collectEntries deeper lang dir rest out

/-- The first argument counts the levels that are left. -/
def collectFiles (disk : Disk) (lang : Option SupportLang) :
    Nat → PathBuf → List PathBuf → Except DaemonError (List PathBuf)
  | 0, _, out => .ok out
  | left + 1, dir, out =>
      if maxWalkFiles ≤ out.length then .ok out
      else match disk.readDir dir with
        | .error errno => .error (.ofErrno errno)
        | .ok entries => collectEntries (collectFiles disk lang left) lang dir entries out

/-- Components of a path are compared by their kind and then by their name. -/
def componentRank : Component → ℕ ×ₗ String
  | .rootDir => toLex (0, "")
  | .curDir => toLex (1, "")
  | .parentDir => toLex (2, "")
  | .normal name => toLex (3, name)

def pathRank (path : PathBuf) : List (ℕ ×ₗ String) :=
  path.components.map componentRank

def sortFiles (files : List PathBuf) : List PathBuf :=
  files.insertionSort fun first second => pathRank first ≤ pathRank second

/-- What a search over files has so far. -/
structure Search where
  found : List AstMatch
  truncated : Bool
  langsSeen : List SupportLang

/-- Files are searched in their order, and a file that is no text is left out. -/
def grepFiles (host : Host) (library : AstLibrary) (disk : Disk) (gate : CapabilityGate)
    (explicit : Option SupportLang) (pattern : String) (cap : Nat) :
    List PathBuf → Search → Option (Except DaemonError Search)
  | [], search => some (.ok search)
  | file :: rest, search =>
      if cap ≤ search.found.length then some (.ok { search with truncated := true })
      else match ensureFile gate "desktop.fs.read" file with
        | .error error => some (.error error)
        | .ok _ => match explicit.or (file.extension.bind langFromExtension) with
          | none => grepFiles host library disk gate explicit pattern cap rest search
          | some lang =>
            let seen := if search.langsSeen.contains lang then search.langsSeen
              else search.langsSeen ++ [lang]
            match disk.readToString file with
            | .error _ => grepFiles host library disk gate explicit pattern cap rest
                { search with langsSeen := seen }
            | .ok source => match compilePattern host library pattern lang with
              | .error error => some (.error error)
              | .ok findAll =>
                (report cap (some file.display) (findAll source) search.found).bind fun reported =>
                  grepFiles host library disk gate explicit pattern cap rest
                    ⟨reported.1, search.truncated || reported.2, seen⟩

/-- A directory is searched file by file. -/
def grepDir (host : Host) (library : AstLibrary) (disk : Disk) (gate : CapabilityGate)
    (req : AstGrepRequest) : Option (Except DaemonError AstGrepResult) :=
  let explicit := explicitLang library req.language
  match collectFiles disk explicit (maxWalkDepth + 1) (.ofText req.path) [] with
  | .error error => some (.error error)
  | .ok files =>
      (grepFiles host library disk gate explicit req.pattern (capOf req) (sortFiles files)
        ⟨[], false, []⟩).map fun searched => searched.map fun search =>
          ⟨match explicit with
            | some lang => langText host library lang
            | none => match search.langsSeen with
              | [lang] => langText host library lang
              | _ => "mixed", search.found, search.truncated⟩

/-- One file is searched in the language of the request. -/
def grepFile (host : Host) (library : AstLibrary) (disk : Disk) (req : AstGrepRequest) :
    Option (Except DaemonError AstGrepResult) :=
  match resolveLang host library req.language req.path with
  | .error error => some (.error error)
  | .ok lang => match compilePattern host library req.pattern lang with
    | .error error => some (.error error)
    | .ok findAll => match disk.readToString (.ofText req.path) with
      | .error error => some (.error error)
      | .ok source => (report (capOf req) none (findAll source) []).map fun reported =>
          .ok ⟨langText host library lang, reported.1, reported.2⟩

/-- A search takes a file or a directory. -/
def grep (host : Host) (library : AstLibrary) (disk : Disk) (gate : CapabilityGate)
    (req : AstGrepRequest) : Option (Except DaemonError AstGrepResult) :=
  match ensurePath gate "desktop.fs.read" req.path with
  | .error error => some (.error error)
  | .ok _ => match disk.fs.metadata (.ofText req.path) with
    | .error errno => some (.error (.ofErrno errno))
    | .ok .dir => grepDir host library disk gate req
    | .ok _ => grepFile host library disk req

end AstOps

end Daemon
