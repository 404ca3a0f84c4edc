import SynthHiresBridge.Data.Table
import SynthHiresBridge.Transition.Run

namespace Daemon

namespace BrowserStore

/-- A browser numbers the pages that it opens. -/
abbrev Page := Nat

structure TabOpenParams where
  url : Option String
  tabId : Option String

structure TabOpenResult where
  tabId : String
  url : String
  title : Option String
  tabs : List String

structure TabSelectResult where
  activeTab : String
  url : String
  tabs : List String

structure TabCloseResult where
  closed : Bool
  activeTab : String
  tabs : List String

structure TabListResult where
  activeTab : String
  tabs : List String

inductive BrowserError where
  | noSession
  | cdp (message : String)

/-- The active tab is stored under its own id and once more as the page that the verbs act on. -/
structure BrowserSession where
  page : Page
  refs : Table Int Int
  tabs : Table String Page
  activeTab : String
  mockListenerArmed : Bool
  intercepted : List Page
  pages : Nat

namespace BrowserSession

/-- A launch opens one page, which has the tab `main`. -/
def launch : BrowserSession where
  page := 0
  refs := ∅
  tabs := AList.singleton "main" 0
  activeTab := "main"
  mockListenerArmed := false
  intercepted := []
  pages := 1

/-- The id of a new tab is chosen by the caller, or it counts the tabs that are open. -/
def newTabId (session : BrowserSession) (params : TabOpenParams) : String :=
  match params.tabId with
  | some id => id
  | none => "tab-" ++ toString session.tabs.keys.length

/-- The browser may refuse a page, and interception may fail on it. -/
def tabOpen (session : BrowserSession) (params : TabOpenParams) (refused : Option String)
    (intercepts : Bool) : Except BrowserError (TabOpenResult × BrowserSession) :=
  match refused with
  | some reason => .error (.cdp ("tab open: " ++ reason))
  | none =>
      let page := session.pages
      let tabId := session.newTabId params
      let tabs := session.tabs.insert tabId page
      let armed := session.mockListenerArmed && intercepts
      .ok ({ tabId, url := params.url.getD "about:blank", title := none, tabs := tabs.keys },
        { session with
          page, tabs
          refs := ∅
          activeTab := tabId
          intercepted := if armed then page :: session.intercepted else session.intercepted
          pages := session.pages + 1 })

def tabSelect (session : BrowserSession) (tabId : String) (url : Option String) :
    Except BrowserError (TabSelectResult × BrowserSession) :=
  match session.tabs.lookup tabId with
  | none => .error (.cdp ("no such tab: " ++ tabId))
  | some page =>
      .ok ({ activeTab := tabId, url := url.getD "", tabs := session.tabs.keys },
        { session with page, activeTab := tabId, refs := ∅ })

/-- The last tab ends the session, and the tab that takes the place of an active one is the first
key in the order of the table, which the `choice` stands for. -/
def tabClose (session : BrowserSession) (tabId : String) (choice : Nat) :
    Except BrowserError (TabCloseResult × Option BrowserSession) :=
  match session.tabs.lookup tabId with
  | none => .error (.cdp ("no such tab: " ++ tabId))
  | some _ =>
      let tabs := session.tabs.erase tabId
      let rest := { session with tabs }
      let kept := { closed := true, activeTab := session.activeTab, tabs := tabs.keys }
      match tabs.entries[choice % tabs.entries.length]? with
      | none => .ok ({ closed := true, activeTab := "", tabs := [] }, none)
      | some fallback =>
          if session.activeTab = tabId then
            .ok ({ kept with activeTab := fallback.1 },
              some { rest with activeTab := fallback.1, page := fallback.2, refs := ∅ })
          else .ok (kept, some rest)

def tabList (session : BrowserSession) : TabListResult :=
  ⟨session.activeTab, session.tabs.keys⟩

end BrowserSession

inductive Event where
  | tabOpen (params : TabOpenParams) (refused : Option String) (intercepts : Bool)
  | tabSelect (tabId : String) (url : Option String)
  | tabClose (tabId : String) (choice : Nat)
  | tabList

def session (store : Option BrowserSession) : Except BrowserError BrowserSession :=
  match store with
  | none => .error .noSession
  | some session => .ok session

/-- An operation that fails leaves the session as it was. -/
def step (store : Option BrowserSession) (event : Event) : Option BrowserSession :=
  match session store with
  | .error _ => store
  | .ok session =>
      match event with
      | .tabOpen params refused intercepts =>
          match session.tabOpen params refused intercepts with
          | .error _ => some session
          | .ok done => some done.2
      | .tabSelect tabId url =>
          match session.tabSelect tabId url with
          | .error _ => some session
          | .ok done => some done.2
      | .tabClose tabId choice =>
          match session.tabClose tabId choice with
          | .error _ => some session
          | .ok done => done.2
      | .tabList => some session

end BrowserStore

end Daemon
