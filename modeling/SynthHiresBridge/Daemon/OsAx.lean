import SynthHiresBridge.Data.Table
import SynthHiresBridge.Data.Text
import SynthHiresBridge.Transition.Run

namespace Daemon

namespace OsAx

inductive OsError where
  | notAvailable (hint : String)
  | busUnavailable (message : String)
  | unknownApp (app : String)
  | unknownRef (ref : Int)
  | badAction (action : String)
  | rejected (message : String)
  | atspi (message : String)
  deriving DecidableEq

structure OsNodeStates where
  enabled : Bool
  focused : Bool
  checked : Bool
  expanded : Option Bool
  editable : Bool

structure OsNode where
  role : String
  name : String
  states : OsNodeStates
  actions : List String
  identity : String

def interestingRolePatterns : List String :=
  ["button", "check", "radio", "menu", "item", "entry", "text", "label", "link", "tab",
    "toggle", "switch", "slider", "combo", "list", "tree", "table", "dialog", "alert",
    "notification", "window", "frame", "panel", "push", "spin", "progress", "status",
    "page", "scroll", "option"]

/-- The platform and the tables of Unicode give these parts. -/
structure Host where
  toLowercase : String → String

def roleIsInteresting (host : Host) (role name : String) : Bool :=
  Text.trim name ≠ "" || interestingRolePatterns.any (Text.contains (host.toLowercase role))

def capText (text : String) (max : Nat) : String :=
  if text.toList.length ≤ max then text else String.ofList (text.toList.take max) ++ "…"

def renderNodeLine (ref : Int) (node : OsNode) (maxName : Nat) : String :=
  "[ref=" ++ toString ref ++ "] " ++ node.role ++ " \"" ++ capText node.name maxName ++ "\"" ++
    (if node.states.enabled then "" else " [disabled]") ++
    (if node.states.focused then " [focused]" else "") ++
    (if node.states.checked then " [checked]" else "") ++
    (match node.states.expanded with
      | some true => " [expanded]"
      | some false => " [collapsed]"
      | none => "") ++
    (if node.states.editable then " [editable]" else "") ++
    (if node.actions = [] then "" else " (" ++ String.intercalate ", " node.actions ++ ")")

structure RenderedTree where
  text : String
  refs : List String
  total : Nat
  truncated : Bool

/-- The lines of the interesting nodes are numbered as they come, until the limit is reached. -/
def renderFrom (host : Host) (limit count : Nat) : List OsNode → String × List String × Bool
  | [] => ("", [], false)
  | node :: rest =>
      if count ≥ limit then ("", [], true)
      else if roleIsInteresting host node.role node.name then
        let later := renderFrom host limit (count + 1) rest
        (renderNodeLine (count + 1) node 160 ++ "\n" ++ later.1, node.identity :: later.2.1, later.2.2)
      else renderFrom host limit count rest

/-- The window starts a little before the first name with the text that is looked for. -/
def windowStart (host : Host) (nodes : List OsNode) (focus : Option String) : Nat :=
  match (focus.map fun text => host.toLowercase (Text.trim text)).filter (· ≠ "") with
  | none => 0
  | some needle =>
      match nodes.findIdx? fun node => Text.contains (host.toLowercase node.name) needle with
      | none => 0
      | some hit => hit - 3

def renderTree (host : Host) (nodes : List OsNode) (limit : Nat) (focus : Option String) :
    RenderedTree :=
  let rendered := renderFrom host limit 0 (nodes.drop (windowStart host nodes focus))
  ⟨rendered.1, rendered.2.1, nodes.length, rendered.2.2⟩

/-- Refs count from one. -/
structure OsRefs where
  identities : List String

def OsRefs.get (refs : OsRefs) (ref : Int) : Option String :=
  if 0 < ref then refs.identities[(ref - 1).toNat]? else none

structure OsSnapshotParams where
  app : String
  limit : Option Nat
  focus : Option String

structure OsActParams where
  elementRef : Int
  action : String
  text : Option String

structure OsSnapshotResult where
  app : String
  rootName : Option String
  nodeCount : Nat
  truncated : Bool
  text : String

structure OsActResult where
  ok : Bool
  action : String
  detail : String
  snapshot : OsSnapshotResult

/-- A walk reads the name of the root and the nodes below it. -/
abbrev Walk := Except OsError (Option String × List OsNode)

structure OsAxEngine where
  connected : Bool
  sessions : Table String OsRefs

def OsAxEngine.new : OsAxEngine := ⟨false, ∅⟩

/-- The identities that the last returned text numbered are known to its reader only. -/
structure Outcome (Result : Type) where
  result : Except OsError Result
  engine : OsAxEngine
  shown : Option OsRefs
  performed : Option String

def fail {Result : Type} (engine : OsAxEngine) (error : OsError) : Outcome Result :=
  ⟨.error error, engine, none, none⟩

namespace OsAxEngine

/-- The backend is connected once, and a failed connection is tried again by the next call. -/
def ensureBackend (engine : OsAxEngine) (connects : Except OsError Unit) :
    Except OsError OsAxEngine :=
  if engine.connected then .ok engine
  else
    match connects with
    | .error error => .error error
    | .ok () => .ok { engine with connected := true }

/-- A snapshot that is returned is stored under its application. -/
def store (engine : OsAxEngine) (app : String) (rootName : Option String) (tree : RenderedTree) :
    OsSnapshotResult × OsAxEngine :=
  (⟨app, rootName, tree.total, tree.truncated, tree.text⟩,
    { engine with sessions := engine.sessions.insert app ⟨tree.refs⟩ })

def snapshot (host : Host) (engine : OsAxEngine) (params : OsSnapshotParams)
    (connects : Except OsError Unit) (walk : Walk) : Outcome OsSnapshotResult :=
  let app := Text.trim params.app
  if app = "" ∨ app.toList.map Char.toLower = "list".toList then
    fail engine (.badAction "snapshot needs an app name — call desktop_os_apps first")
  else
    match engine.ensureBackend connects with
    | .error error => fail engine error
    | .ok engine =>
        match walk with
        | .error error => fail engine error
        | .ok (rootName, nodes) =>
            let limit := Nat.min (Nat.max (params.limit.getD 300) 20) 2000
            let tree := renderTree host nodes limit params.focus
            let stored := engine.store app rootName tree
            ⟨.ok stored.1, stored.2, some ⟨tree.refs⟩, none⟩

/-- The actions are checked before anything is looked up. -/
def checkAction (params : OsActParams) : Except OsError Unit :=
  if ["press", "set_text", "select", "press_action", "type_text"].all (params.action ≠ ·) then
    .error (.badAction params.action)
  else if ["set_text", "type_text", "press_action"].contains params.action ∧
      params.text.getD "" = "" then
    .error (.badAction ("set_text/type_text need `text`; press_action needs the NATIVE ACTION NAME " ++
      "in `text`"))
  else if params.action = "select" ∧ params.text.isNone then
    .error (.badAction "select needs the child INDEX in `text` (e.g. \"2\")")
  else .ok ()

/-- The applications are searched in the order in which the table is visited. -/
def owner (engine : OsAxEngine) (order : List String) (ref : Int) : Option (String × String) :=
  order.findSome? fun app =>
    ((engine.sessions.lookup app).bind fun refs => refs.get ref).map fun identity => (app, identity)

def act (host : Host) (engine : OsAxEngine) (params : OsActParams) (connects : Except OsError Unit)
    (order : List String) (acts : Except OsError String) (walk : Walk) : Outcome OsActResult :=
  match checkAction params with
  | .error error => fail engine error
  | .ok () =>
      match engine.ensureBackend connects with
      | .error error => fail engine error
      | .ok engine =>
          match engine.owner order params.elementRef with
          | none => fail engine (.unknownRef params.elementRef)
          | some (app, identity) =>
              match acts with
              | .error error => { fail engine error with performed := some identity }
              | .ok detail =>
                  match walk with
                  | .error error => { fail engine error with performed := some identity }
                  | .ok (rootName, nodes) =>
                      let tree := renderTree host nodes 300 none
                      let stored := engine.store app rootName tree
                      ⟨.ok ⟨true, params.action, detail, stored.1⟩, stored.2, some ⟨tree.refs⟩,
                        some identity⟩

end OsAxEngine

end OsAx

end Daemon
