import SynthHiresBridge.Daemon.BrowserTabs
import SynthHiresBridge.Daemon.OsAx
import SynthHiresBridge.Data.Json
import SynthHiresBridge.Data.Table
import SynthHiresBridge.Data.JsonText

namespace Daemon

open Json

structure AxValue where
  value : Option Value

/-- The states that the snapshot reads, and any other property. -/
inductive AxPropertyName where
  | disabled
  | focused
  | checked
  | expanded
  | other
  deriving DecidableEq

structure AxProperty where
  name : AxPropertyName
  value : AxValue

structure AxNode where
  nodeId : String
  ignored : Bool
  role : Option AxValue
  name : Option AxValue
  value : Option AxValue
  properties : Option (List AxProperty)
  parentId : Option String
  childIds : Option (List String)
  backendDomNodeId : Option Int

/-- The parents that nodes name, and the ones that name them as children. -/
structure ParentMaps where
  byId : Table String String
  byChild : Table String String

namespace ParentMaps

/-- The last node with an id gives its parent, and the first that lists a child is the parent. -/
def note (maps : ParentMaps) (node : AxNode) : ParentMaps where
  byId := match node.parentId with
    | some parent => maps.byId.insert node.nodeId parent
    | none => maps.byId
  byChild := (node.childIds.getD []).foldl (fun byChild child =>
    if (byChild.lookup child).isSome then byChild else byChild.insert child node.nodeId) maps.byChild

def parent (maps : ParentMaps) (id : String) : Option String :=
  (maps.byId.lookup id).or (maps.byChild.lookup id)

end ParentMaps

def axParentMaps (nodes : List AxNode) : ParentMaps := nodes.foldl ParentMaps.note ⟨∅, ∅⟩

/-- The climb fills its cache on the way out. It has no result when its calls nest too deep. -/
def axDepth : Nat → ParentMaps → Table String Nat → String → Option (Nat × Table String Nat)
  | 0, _, _, _ => none
  | fuel + 1, maps, cache, id =>
      match cache.lookup id with
      | some depth => some (depth, cache)
      | none =>
          match maps.parent id with
          | none => some (0, cache.insert id 0)
          | some above =>
              if above ≠ id then
                (axDepth fuel maps cache above).map fun climbed =>
                  (climbed.1 + 1, climbed.2.insert id (climbed.1 + 1))
              else some (0, cache.insert id 0)

/-- Queries one after the other share the cache. -/
def axDepths (fuel : Nat) (maps : ParentMaps) :
    Table String Nat → List String → Option (List Nat × Table String Nat)
  | cache, [] => some ([], cache)
  | cache, id :: ids =>
      (axDepth fuel maps cache id).bind fun climbed =>
        (axDepths fuel maps climbed.2 ids).map fun later => (climbed.1 :: later.1, later.2)

open Json

def maxNameChars : Nat := 120

def maxValueChars : Nat := 200

def interestingRoles : List String :=
  ["link", "button", "textbox", "searchbox", "combobox", "checkbox", "radio", "menuitem", "tab",
    "option", "slider", "switch", "listbox", "menu", "tablist", "heading", "img", "article",
    "navigation", "main", "dialog", "alert", "status", "progressbar", "spinbutton", "textarea",
    "list", "tree"]

/-- Only a string is display text. -/
def axValueText (value : Option AxValue) : Option String :=
  value.bind fun found => found.value.bind Value.asStr

structure AxStates where
  disabled : Bool
  focused : Bool
  checked : Option String
  expanded : Option String
  deriving DecidableEq

def checkedText (value : AxValue) : String :=
  match value.value.bind Value.asStr with
  | some "true" => "checked"
  | some "mixed" => "mixed"
  | _ => "unchecked"

def expandedText (truth : Bool) : String := if truth then "expanded" else "collapsed"

namespace AxNode

def roleText (node : AxNode) : String := (axValueText node.role).getD "generic"

def nameText (node : AxNode) : String := (axValueText node.name).getD ""

def valueText (node : AxNode) : String := (axValueText node.value).getD ""

def interesting (node : AxNode) : Bool :=
  interestingRoles.contains node.roleText || node.nameText ≠ "" || node.valueText ≠ ""

/-- A later property overrides an earlier one of the same name. -/
def states (node : AxNode) : AxStates :=
  (node.properties.getD []).foldl (fun states property =>
    let truth := property.value.value.bind Value.asBool
    match property.name with
    | .disabled => { states with disabled := truth.getD false }
    | .focused => { states with focused := truth.getD false }
    | .checked => { states with checked := some (checkedText property.value) }
    | .expanded => { states with expanded := truth.map expandedText }
    | .other => states) ⟨false, false, none, none⟩

/-- The line of a node that stands at a depth of the tree. -/
def line (ref depth : Nat) (node : AxNode) : String :=
  String.join (List.replicate depth "  ") ++ "[ref=" ++ toString ref ++ "] " ++ node.roleText ++
    (if node.nameText ≠ "" then " \"" ++ OsAx.capText node.nameText maxNameChars ++ "\"" else "") ++
    (if node.valueText ≠ "" ∧ node.valueText ≠ node.nameText then
      " = " ++ OsAx.capText node.valueText maxValueChars else "") ++
    (if node.states.disabled then " [disabled]" else "") ++
    (if node.states.focused then " [focused]" else "") ++
    (node.states.checked.elim "" fun checked => " [" ++ checked ++ "]") ++
    (node.states.expanded.elim "" fun expanded => " [" ++ expanded ++ "]")

end AxNode

/-- Each interesting node that is not ignored gets a line until the limit is reached, and its ref
is kept where the node has an element. -/
def renderAx (fuel : Nat) (maps : ParentMaps) (limit : Nat) :
    Nat → Table String Nat → Table Int Int → List AxNode → Option (String × Table Int Int)
  | _, _, refs, [] => some ("", refs)
  | count, cache, refs, node :: rest =>
      if count ≥ limit then some ("", refs)
      else if node.ignored then renderAx fuel maps limit count cache refs rest
      else if !node.interesting then renderAx fuel maps limit count cache refs rest
      else
        let backend := node.backendDomNodeId.getD 0
        let refs : Table Int Int := if 0 < backend then refs.insert (count + 1) backend else refs
        (axDepth fuel maps cache node.nodeId).bind fun climbed =>
          (renderAx fuel maps limit (count + 1) climbed.2 refs rest).map fun later =>
            (node.line (count + 1) climbed.1 ++ "\n" ++ later.1, later.2)

/-- The first node that is not ignored and has the text that is looked for. -/
def focusHit (host : OsAx.Host) (nodes : List AxNode) (focus : Option String) : Option Nat :=
  ((focus.map Text.trim).filter (· ≠ "")).bind fun needle =>
    let lower := host.toLowercase needle
    nodes.findIdx? fun node => !node.ignored &&
      [node.name, node.value].any fun ax =>
        (axValueText ax).any fun text => Text.contains (host.toLowercase text) lower

/-- The node where the window starts. -/
def focusStart (host : OsAx.Host) (nodes : List AxNode) (focus : Option String) : Nat :=
  ((focusHit host nodes focus).map fun hit => hit - 5).getD 0

def focusBudget (budget : Option Nat) : Nat := max 30 (min (budget.getD 350) 2000)

/-- The nodes that the snapshot renders from. -/
def focusWindow (host : OsAx.Host) (nodes : List AxNode) (focus : Option String)
    (budget : Option Nat) : List AxNode :=
  match focusHit host nodes focus with
  | none => nodes
  | some hit => (nodes.drop (hit - 5)).take (focusBudget budget)

structure ConsoleLine where
  level : String
  text : String

structure NetworkLine where
  status : Nat
  resourceType : String
  url : String
  error : Option String

structure SnapshotResult where
  url : Option String
  title : Option String
  nodeCount : Nat
  truncated : Bool
  text : String
  console : List ConsoleLine
  network : List NetworkLine
  focusMatched : Option Nat

namespace BrowserStore

/-- A session with the lines that its listeners collected. -/
structure Observed where
  session : BrowserSession
  console : List ConsoleLine
  network : List NetworkLine

/-- The page answers with its tree, its address and its title. -/
structure PageAnswers where
  nodes : Except String (List AxNode)
  url : Option String
  title : Option String

/-- A snapshot drains the collected lines and replaces the refs, unless there is no tree. -/
def snapshotInner (fuel : Nat) (host : OsAx.Host) (page : PageAnswers) (observed : Observed)
    (limit : Nat) (focus : Option String) (budget : Option Nat) :
    Option (Except BrowserError SnapshotResult × Observed) :=
  match page.nodes with
  | .error message => some (.error (.cdp ("ax tree: " ++ message)), observed)
  | .ok nodes =>
      let serialized := focusWindow host nodes focus budget
      (renderAx fuel (axParentMaps serialized) limit 0 ∅ ∅ serialized).map fun rendered =>
        (.ok {
            url := page.url
            title := page.title
            nodeCount := nodes.length
            truncated := decide (limit < nodes.length)
            text := rendered.1
            console := observed.console
            network := observed.network
            focusMatched := (focusHit host nodes focus).map fun _ => nodes.length },
          { session := { observed.session with refs := rendered.2 }
            console := []
            network := [] })

end BrowserStore

/-- What a page reports to the listeners of a session. -/
inductive PageEvent where
  | consoleApiCalled (event : Value)
  | entryAdded (event : Value)
  | javascriptDialogOpening (event : Value)
  | responseReceived (event : Value)
  | loadingFailed (event : Value)

namespace PageEvent

/-- Arguments without a text are passed over before the first text, and the first one after it ends
the line. -/
def argumentTexts (parts : List String) : List Value → List String
  | [] => parts
  | argument :: rest =>
      match (argument.get "value").bind Value.asStr with
      | some text => argumentTexts (parts ++ [text]) rest
      | none => match (argument.get "description").bind Value.asStr with
        | some text => argumentTexts (parts ++ [text]) rest
        | none => match argument.get "preview" with
          | some preview => argumentTexts (parts ++ [String.ofList preview.text]) rest
          | none => if parts = [] then argumentTexts parts rest else parts

def consoleArgsText (event : Value) : String :=
  " ".intercalate (argumentTexts [] (((event.get "args").bind Value.asArray).getD []))

def dialogConsoleLine (kind message url : String) : ConsoleLine :=
  ⟨"dialog", "[" ++ kind ++ "] " ++ message ++ " — dismissed (" ++ url ++ ")"⟩

/-- Errors and warnings of console calls are lines, log entries that have a text, and dialogs. -/
def consoleLine : PageEvent → Option ConsoleLine
  | .consoleApiCalled event =>
      let level := ((event.get "type").bind Value.asStr).getD "log"
      if level = "error" ∨ level = "warning" then some ⟨level, consoleArgsText event⟩ else none
  | .entryAdded event =>
      let text := ((event.pointer ["entry", "text"]).bind Value.asStr).getD ""
      if text = "" then none
      else some ⟨((event.pointer ["entry", "level"]).bind Value.asStr).getD "info", text⟩
  | .javascriptDialogOpening event =>
      some (dialogConsoleLine (((event.get "type").bind Value.asStr).getD "dialog")
        (((event.get "message").bind Value.asStr).getD "")
        (((event.get "url").bind Value.asStr).getD ""))
  | _ => none

/-- A response needs an address, and a load that failed is named by its request. -/
def networkLine : PageEvent → Option NetworkLine
  | .responseReceived event =>
      let status := ((event.pointer ["response", "status"]).bind Value.asU64).getD 0
      let url := ((event.pointer ["response", "url"]).bind Value.asStr).getD ""
      if url = "" then none
      else some ⟨status, ((event.pointer ["type"]).bind Value.asStr).getD "", url,
        if 400 ≤ status ∧ status < 600 then some ("HTTP " ++ toString status) else none⟩
  | .loadingFailed event =>
      let url := match (event.get "requestId").bind Value.asStr with
        | some id => "(request " ++ id ++ ")"
        | none => "(unknown request)"
      let errorText := ((event.get "errorText").bind Value.asStr).getD "failed"
      let canceled := ((event.get "canceled").bind Value.asBool).getD false
      some ⟨0, "", url, some (if canceled then errorText ++ " (canceled)" else errorText)⟩
  | _ => none

end PageEvent

namespace BrowserStore

def consoleRing : Nat := 200

def networkRing : Nat := 200

/-- An item that comes to a full ring takes the place of the oldest one. It is lost when the ring is
locked. -/
def pushRing {Item : Type*} (free : Bool) (ring : List Item) (item : Item) (cap : Nat) :
    List Item :=
  if free then (if ring.length ≥ cap then ring.drop 1 else ring) ++ [item] else ring

/-- A listener puts the line of its event in the ring. -/
def capture (free : Bool) (observed : Observed) (event : PageEvent) : Observed :=
  { observed with
    console := event.consoleLine.elim observed.console fun line =>
      pushRing free observed.console line consoleRing
    network := event.networkLine.elim observed.network fun line =>
      pushRing free observed.network line networkRing }

/-- The listeners and the snapshots of a session take turns. -/
inductive PageTurn where
  | capture (event : PageEvent) (free : Bool)
  | snapshot (fuel : Nat) (page : PageAnswers) (limit : Nat) (focus : Option String)
      (budget : Option Nat)

/-- A turn keeps the results of the snapshots that have a tree. -/
def pageTurn (host : OsAx.Host) (shown : Observed × List SnapshotResult) :
    PageTurn → Option (Observed × List SnapshotResult)
  | .capture event free => some (capture free shown.1 event, shown.2)
  | .snapshot fuel page limit focus budget =>
      (snapshotInner fuel host page shown.1 limit focus budget).map fun ran =>
        (ran.2, shown.2 ++ ran.1.toOption.toList)

def pageRun (host : OsAx.Host) (shown : Observed × List SnapshotResult) :
    List PageTurn → Option (Observed × List SnapshotResult)
  | [] => some shown
  | turn :: rest => (pageTurn host shown turn).bind fun next => pageRun host next rest

end BrowserStore

end Daemon

namespace Daemon.BrowserScript

/-- The escapes of a script's string literal. -/
def escapeChar (c : Char) : List Char :=
  if c = '"' then ['\\', '"']
  else if c = '\\' then ['\\', '\\']
  else if c = '\n' then ['\\', 'n']
  else if c = '\r' then ['\\', 'r']
  else if c = '\t' then ['\\', 't']
  else if c.toNat < 0x20 then
    ['\\', 'u', '0', '0', Json.hexDigit (c.toNat / 16), Json.hexDigit (c.toNat % 16)]
  else [c]

def jsonEscape (text : String) : String :=
  String.ofList ('"' :: (text.toList.flatMap escapeChar ++ ['"']))

/-- What stands before the literal in the expression of `ax_tree_contains`. -/
def containsFront : String :=
  "(() => \x7b try \x7b return !!(document.body && document.body.innerText.includes("

def containsBack : String := ")); \x7d catch (_) \x7b return false; \x7d \x7d)()"

/-- The expression that `ax_tree_contains` evaluates in the page. -/
def containsExpression (text : String) : String :=
  containsFront ++ jsonEscape text ++ containsBack

example : jsonEscape "a\"\x01" = "\"a\\\"\\u0001\"" := by decide

end Daemon.BrowserScript
