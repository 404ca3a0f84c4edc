import SynthHiresBridge.Daemon.JsonRpc
import SynthHiresBridge.Daemon.LspOps
import SynthHiresBridge.Data.Table

namespace Daemon

open Json Posix Transition

namespace LspEngine

/-- The program and the arguments of a server, and its language. -/
structure ServerSpec where
  language : String
  program : String
  args : List String
  deriving DecidableEq

@[irreducible] def lspLanguageFor (ext : String) : Option ServerSpec :=
  let ext := String.ofList (ext.toList.map Char.toLower)
  if ext = "rs" then some ⟨"rust", "rust-analyzer", []⟩
  else if ["ts", "tsx", "jsx", "mjs", "cjs"].contains ext then
    some ⟨"typescript", "typescript-language-server", ["--stdio"]⟩
  else if ext = "js" then some ⟨"javascript", "typescript-language-server", ["--stdio"]⟩
  else if ext = "py" then some ⟨"python", "pyright-langserver", ["--stdio"]⟩
  else if ext = "go" then some ⟨"go", "gopls", []⟩
  else if ["c", "h"].contains ext then some ⟨"c", "clangd", []⟩
  else if ["cc", "cpp", "cxx", "hpp", "hh"].contains ext then some ⟨"cpp", "clangd", []⟩
  else none

/-- A character of an address stands for itself, or its bytes are written in hexadecimal. -/
def uriChar (char : Char) : List Char :=
  if char.isAlphanum ∨ "-_.!~*'()".toList.contains char then [char]
  else (String.utf8EncodeChar char).flatMap fun byte =>
    ['%', (Json.hexDigit (byte.toNat / 16)).toUpper, (Json.hexDigit (byte.toNat % 16)).toUpper]

def pathToUri (path : String) : String :=
  let parts := (Text.split path fun char => char == '/' || char == '\\').filter (· ≠ "")
  String.ofList ("file://".toList ++ (parts.flatMap fun part => '/' :: part.toList.flatMap uriChar) ++
    if path.toList.getLast? = some '/' then ['/'] else [])

/-- A notification has no number. -/
structure LspMessage where
  id : Option Nat
  method : String
  params : Value

def LspMessage.toValue (message : LspMessage) : Value :=
  .object (("jsonrpc", .string "2.0") :: (message.id.toList.map fun id => ("id", .ofNat id)) ++
    [("method", .string message.method), ("params", message.params)])

/-- What went over the pipes of a server: messages that were written, and replies that reached the
call that waited for them. -/
inductive Traffic where
  | wrote (message : LspMessage)
  | answered (id : Nat) (reply : Value)

/-- A pooled server has the files that were opened, and its traffic is kept for the record. -/
structure ServerState where
  program : String
  language : String
  opened : List String
  nextId : Nat
  traffic : List Traffic

/-- The servers of an engine by language and root. -/
abbrev Servers := Table (String × String) ServerState

inductive SpawnFault where
  | notFound
  | other (detail : String)

/-- The outside world of one call: whether a server starts, which writes fail, what the calls wait
for, and what the server published for the file before the deadline. -/
structure CallWorld where
  gate : CapabilityGate
  processId : Nat
  spawn : Option SpawnFault
  writeError : String
  initializeExit : Exit Value
  initializedFault : Bool
  didOpenFault : Bool
  requestExit : Exit Value
  published : Option (List Value)

def CallWorld.fault (world : CallWorld) : DaemonError := .protocol ("lsp stdin: " ++ world.writeError)

/-- A request takes the next number, and its reply is part of the traffic. -/
def ServerState.request (state : ServerState) (method : String) (params : Value)
    (exit : Exit Value) : ServerState :=
  let message : LspMessage := ⟨some state.nextId, method, params⟩
  { state with
    nextId := state.nextId + 1
    traffic := state.traffic ++ match exit with
      | .writeFailed => []
      | .answered reply => [.wrote message, .answered state.nextId reply]
      | .dropped => [.wrote message]
      | .timedOut => [.wrote message] }

def ServerState.notify (state : ServerState) (method : String) (params : Value) : ServerState :=
  { state with traffic := state.traffic ++ [.wrote ⟨none, method, params⟩] }

/-- The handshake asks the server to initialize and confirms its reply. -/
def ServerState.initializeServer (state : ServerState) (root : String) (world : CallWorld) :
    Except DaemonError Unit × ServerState :=
  let asked := state.request "initialize" (.object [("processId", .ofNat world.processId),
    ("rootUri", .string (pathToUri root)), ("capabilities", .object [])]) world.initializeExit
  match initializeResult world.fault world.initializeExit with
  | .error error => (.error error, asked)
  | .ok _ =>
      if world.initializedFault then (.error world.fault, asked)
      else (.ok (), asked.notify "initialized" (.object []))

def didOpenParams (uri language source : String) : Value :=
  .object [("textDocument", .object [("uri", .string uri), ("languageId", .string language),
    ("version", .ofNat 1), ("text", .string source)])]

/-- A file that was not opened before is put into the set first, and then come the handshake and
the notification. -/
def ServerState.openFile (state : ServerState) (root uri source : String) (world : CallWorld) :
    Except DaemonError Unit × ServerState :=
  match ({ state with opened := uri :: state.opened }).initializeServer root world with
  | (.error error, tried) => (.error error, tried)
  | (.ok _, ready) =>
      if world.didOpenFault then (.error world.fault, ready)
      else (.ok (), ready.notify "textDocument/didOpen" (didOpenParams uri state.language source))

def spawnServer (spec : ServerSpec) (world : CallWorld) : Except DaemonError ServerState :=
  match world.spawn with
  | some .notFound => .error (.protocol ("lsp: server '" ++ spec.program ++
      "' not found in PATH for " ++ spec.language ++ "; install it to enable LSP features"))
  | some (.other detail) => .error (.io detail)
  | none => .ok ⟨spec.program, spec.language, [], 1, []⟩

/-- The server of a key is taken from the pool, or a new one is started. -/
def acquire (servers : Servers) (key : String × String) (spec : ServerSpec) (world : CallWorld) :
    Except DaemonError ServerState :=
  match servers.lookup key with
  | some existing => .ok existing
  | none => spawnServer spec world

/-- A prepared call has its server, the address of its file and the text that was read. -/
structure Prepared where
  key : String × String
  state : ServerState
  uri : String
  source : String

def rootOf (path : String) (workspace : Option String) : String :=
  workspace.getD (((PathBuf.ofText path).parent.map PathBuf.display).getD "")

def extensionOf (path : String) : String := (PathBuf.ofText path).extension.getD ""

/-- The servers that stay in the pool are returned with the result, also when a step fails. -/
def prepare (servers : Servers) (machine : FileSystem) (path : String) (workspace : Option String)
    (world : CallWorld) : Except DaemonError Prepared × Servers :=
  match lspLanguageFor (extensionOf path) with
  | none => (.error (.protocol ("lsp: no language server configured for '" ++ extensionOf path ++
      "' (supported: rs, ts/tsx, js, py, go, c/cpp)")), servers)
  | some spec =>
      let root := rootOf path workspace
      let key := (spec.language, root)
      match acquire servers key spec world with
      | .error error => (.error error, servers)
      | .ok state => match readToString machine path with
          | .error error => (.error error, servers.insert key state)
          | .ok source =>
              let uri := pathToUri path
              if uri ∈ state.opened then (.ok ⟨key, state, uri, source⟩, servers.insert key state)
              else match state.openFile root uri source world with
                | (.error error, tried) => (.error error, servers.insert key tried)
                | (.ok _, ready) => (.ok ⟨key, ready, uri, source⟩, servers.insert key ready)

/-- The operations that ask the server about a position. -/
inductive Inquiry where
  | hover (line character : Nat)
  | definition (line character : Nat)
  | rename (line character : Nat) (newName : String)

inductive Operation where
  | diagnostics
  | ask (inquiry : Inquiry)

structure LspCall where
  path : String
  workspace : Option String
  operation : Operation

inductive LspResult where
  | diagnostics (language server uri : String) (diagnostics : List Value)
  | hover (language server : String) (hover : Option Value)
  | definition (language server : String) (locations : List Value)
  | rename (result : LspRenameResult)

def Operation.capability : Operation → String
  | .ask (.rename _ _ _) => "desktop.fs.write"
  | _ => "desktop.fs.read"

def positionParams (uri : String) (line character : Nat) : List (String × Value) :=
  [("textDocument", .object [("uri", .string uri)]),
    ("position", .object [("line", .ofNat (line - 1)), ("character", .ofNat character)])]

def Inquiry.method : Inquiry → String
  | .hover _ _ => "textDocument/hover"
  | .definition _ _ => "textDocument/definition"
  | .rename _ _ _ => "textDocument/rename"

def Inquiry.params (uri : String) : Inquiry → Value
  | .hover line character => .object (positionParams uri line character)
  | .definition line character => .object (positionParams uri line character)
  | .rename line character newName =>
      .object (positionParams uri line character ++ [("newName", .string newName)])

def hoverOf : Value → Option Value
  | .null => none
  | other => some other

def locationsOf : Value → List Value
  | .null => []
  | .array items => items
  | other => [other]

/-- The answer to an inquiry from the result of its request, and a rename changes files. -/
def Inquiry.answer (inquiry : Inquiry) (state : ServerState) (gate : CapabilityGate)
    (machine : FileSystem) (result : Value) : Except DaemonError LspResult × FileSystem :=
  match inquiry with
  | .hover _ _ => (.ok (.hover state.language state.program (hoverOf result)), machine)
  | .definition _ _ => (.ok (.definition state.language state.program (locationsOf result)), machine)
  | .rename _ _ _ => match result with
      | .null => (.error (.protocol
          "lsp rename: server returned no WorkspaceEdit (not a renamable symbol?)"), machine)
      | edit => match LspOps.applyWorkspaceEdit gate machine edit with
          | (.error error, written) => (.error error, written)
          | (.ok counts, written) =>
              (.ok (.rename ⟨state.language, state.program, counts.1, counts.2⟩), written)

/-- An engine and the machine it works on. -/
structure LspState where
  servers : Servers
  machine : FileSystem

/-- A call passes the gate, prepares its server and sends its request. -/
def perform (lsp : LspState) (call : LspCall) (world : CallWorld) :
    Except DaemonError LspResult × LspState :=
  match ensurePath world.gate call.operation.capability call.path with
  | .error error => (.error error, lsp)
  | .ok _ => match prepare lsp.servers lsp.machine call.path call.workspace world with
    | (.error error, servers) => (.error error, ⟨servers, lsp.machine⟩)
    | (.ok prepared, servers) => match call.operation with
      | .diagnostics =>
          (.ok (.diagnostics prepared.state.language prepared.state.program prepared.uri
            (world.published.getD [])), ⟨servers, lsp.machine⟩)
      | .ask inquiry =>
          let asked := prepared.state.request inquiry.method (inquiry.params prepared.uri)
            world.requestExit
          let servers := servers.insert prepared.key asked
          match requestResult inquiry.method world.fault world.requestExit with
          | .error error => (.error error, ⟨servers, lsp.machine⟩)
          | .ok result =>
              let answer := inquiry.answer asked world.gate lsp.machine result
              (answer.1, ⟨servers, answer.2⟩)

/-- The machine changes between calls, by anyone, and calls come one after another. -/
inductive LspEvent where
  | machine (machine : FileSystem)
  | call (call : LspCall) (world : CallWorld)

def step (lsp : LspState) : LspEvent → LspState
  | .machine machine => { lsp with machine := machine }
  | .call call world => (perform lsp call world).2

/-- An engine starts without servers. -/
def start (machine : FileSystem) : LspState := ⟨∅, machine⟩

end LspEngine

end Daemon
