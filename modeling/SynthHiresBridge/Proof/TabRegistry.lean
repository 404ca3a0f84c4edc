import SynthHiresBridge.Daemon.BrowserTabs

namespace Daemon

open Transition

namespace BrowserStore

/-- The pages that were opened and not closed are counted beside the store. -/
structure Browsing where
  store : Option BrowserSession
  openPages : List Page

namespace Browsing

def launched : Browsing := ⟨some .launch, [0]⟩

/-- An event opens or closes at most one page. -/
def pagesAfter (browsing : Browsing) (session : BrowserSession) : Event → List Page
  | .tabOpen _ none _ => browsing.openPages ++ [session.pages]
  | .tabClose tabId _ =>
      match session.tabs.lookup tabId with
      | none => browsing.openPages
      | some page => browsing.openPages.erase page
  | _ => browsing.openPages

def step (browsing : Browsing) (event : Event) : Browsing where
  store := BrowserStore.step browsing.store event
  openPages := browsing.store.elim browsing.openPages fun session =>
    browsing.pagesAfter session event

/-- A new tab has an id of its own, and all other tabs keep their pages. -/
def OpensNew (session : BrowserSession) : Event → Prop
  | .tabOpen params refused intercepts =>
      ∀ done, session.tabOpen params refused intercepts = .ok done →
        done.1.tabId ∉ session.tabs ∧
          ∀ tabId page, session.tabs.lookup tabId = some page → done.2.tabs.lookup tabId = some page
  | _ => True

/-- Each open page is reached under exactly one id, and the active tab is stored with its page. -/
structure Registry (session : BrowserSession) (openPages : List Page) : Prop where
  reachable : ∀ page ∈ openPages, ∃! tabId, session.tabs.lookup tabId = some page
  active : session.tabs.lookup session.activeTab = some session.page

/-- One event opens a new tab only under a new id, and it leaves the registry in order. -/
structure Lawful (browsing : Browsing) (event : Event) : Prop where
  opens : ∀ session, browsing.store = some session → OpensNew session event
  registry : ∀ session, (browsing.step event).store = some session →
    Registry session (browsing.step event).openPages

/-- The id of a tab that is about to open is not the id of an open tab. -/
def IdUnused (browsing : Browsing) : Event → Prop
  | .tabOpen params none _ =>
      ∀ session, browsing.store = some session → session.newTabId params ∉ session.tabs
  | _ => True

/-- No two tabs have one page, and the tabs have just the open pages. -/
structure Tabbed (session : BrowserSession) (openPages : List Page) : Prop where
  reached : ∀ page ∈ openPages, ∃ tabId, session.tabs.lookup tabId = some page
  single : ∀ first second page, session.tabs.lookup first = some page →
    session.tabs.lookup second = some page → first = second
  created : ∀ tabId page, session.tabs.lookup tabId = some page → page < session.pages
  counted : ∀ page ∈ openPages, page < session.pages
  distinct : openPages.Nodup
  active : session.tabs.lookup session.activeTab = some session.page

theorem Tabbed.registry {session : BrowserSession} {openPages : List Page}
    (tabbed : Tabbed session openPages) : Registry session openPages where
  reachable page member := by
    obtain ⟨tabId, held⟩ := tabbed.reached page member
    exact ⟨tabId, held, fun other same => tabbed.single other tabId page same held⟩
  active := tabbed.active

theorem tabbed_launch : Tabbed .launch [0] := by
  have only : ∀ tabId page, BrowserSession.launch.tabs.lookup tabId = some page →
      tabId = "main" ∧ page = 0 := by
    intro tabId page held
    have member := AList.mem_lookup_iff.mp held
    obtain ⟨rfl, same⟩ := Sigma.mk.inj (List.mem_singleton.mp member)
    exact ⟨rfl, eq_of_heq same⟩
  refine ⟨?_, ?_, ?_, ?_, List.nodup_singleton 0, by decide⟩
  · intro page member
    rw [List.mem_singleton.mp member]
    exact ⟨"main", by decide⟩
  · intro first second page held other
    rw [(only first page held).1, (only second page other).1]
  · intro tabId page held
    rw [(only tabId page held).2]
    exact Nat.one_pos
  · intro page member
    rw [List.mem_singleton.mp member]
    exact Nat.one_pos

theorem Tabbed.open {session : BrowserSession} {openPages : List Page}
    (tabbed : Tabbed session openPages) {next : BrowserSession} {tabId : String}
    (unused : tabId ∉ session.tabs) (tabs : next.tabs = session.tabs.insert tabId session.pages)
    (activeTab : next.activeTab = tabId) (page : next.page = session.pages)
    (pages : next.pages = session.pages + 1) : Tabbed next (openPages ++ [session.pages]) := by
  have added : next.tabs.lookup tabId = some session.pages := by rw [tabs, AList.lookup_insert]
  have others : ∀ other, other ≠ tabId → next.tabs.lookup other = session.tabs.lookup other := by
    intro other different
    rw [tabs, AList.lookup_insert_ne different]
  have absent : session.tabs.lookup tabId = none := AList.lookup_eq_none.mpr unused
  -- The new page has a number that no tab has.
  have old : ∀ other, next.tabs.lookup other = some session.pages → other = tabId := by
    intro other held
    by_contra different
    rw [others other different] at held
    exact (tabbed.created other session.pages held).false
  refine ⟨?_, ?_, ?_, ?_, ?_, ?_⟩
  · intro page member
    rcases List.mem_append.mp member with earlier | now
    · obtain ⟨other, held⟩ := tabbed.reached page earlier
      have different : other ≠ tabId := by
        rintro rfl
        rw [absent] at held
        cases held
      exact ⟨other, (others other different).trans held⟩
    · rw [List.mem_singleton.mp now]
      exact ⟨tabId, added⟩
  · intro first second page firstHeld secondHeld
    by_cases fresh : page = session.pages
    · subst fresh
      rw [old first firstHeld, old second secondHeld]
    · have different : ∀ other, next.tabs.lookup other = some page → other ≠ tabId := by
        rintro other held rfl
        rw [added] at held
        exact fresh (Option.some.inj held).symm
      rw [others first (different first firstHeld)] at firstHeld
      rw [others second (different second secondHeld)] at secondHeld
      exact tabbed.single first second page firstHeld secondHeld
  · intro other page held
    rw [pages]
    by_cases same : other = tabId
    · rw [same, added] at held
      rw [← Option.some.inj held]
      exact Nat.lt_succ_self _
    · rw [others other same] at held
      exact Nat.lt_succ_of_lt (tabbed.created other page held)
  · intro page member
    rw [pages]
    rcases List.mem_append.mp member with earlier | now
    · exact Nat.lt_succ_of_lt (tabbed.counted page earlier)
    · rw [List.mem_singleton.mp now]
      exact Nat.lt_succ_self _
  · refine List.nodup_append.mpr ⟨tabbed.distinct, List.nodup_singleton _, ?_⟩
    rintro page earlier _ now rfl
    rw [List.mem_singleton.mp now] at earlier
    exact (tabbed.counted session.pages earlier).false
  · rw [activeTab, added, page]

/-- A tab is closed, and the active tab of what remains is stored with its page. -/
theorem Tabbed.close {session : BrowserSession} {openPages : List Page}
    (tabbed : Tabbed session openPages) {next : BrowserSession} {tabId : String} {closed : Page}
    (held : session.tabs.lookup tabId = some closed) (tabs : next.tabs = session.tabs.erase tabId)
    (pages : next.pages = session.pages)
    (active : next.tabs.lookup next.activeTab = some next.page) :
    Tabbed next (openPages.erase closed) := by
  have kept : ∀ other page, next.tabs.lookup other = some page →
      session.tabs.lookup other = some page := by
    intro other page rest
    rw [tabs] at rest
    by_cases same : other = tabId
    · rw [same, AList.lookup_erase] at rest
      cases rest
    · rwa [AList.lookup_erase_ne same] at rest
  refine ⟨?_, ?_, ?_, ?_, tabbed.distinct.erase closed, active⟩
  · intro page member
    obtain ⟨apart, earlier⟩ := tabbed.distinct.mem_erase_iff.mp member
    obtain ⟨other, stored⟩ := tabbed.reached page earlier
    have different : other ≠ tabId := by
      rintro rfl
      rw [held] at stored
      exact apart (Option.some.inj stored).symm
    exact ⟨other, by rw [tabs, AList.lookup_erase_ne different, stored]⟩
  · intro first second page firstHeld secondHeld
    exact tabbed.single first second page (kept first page firstHeld) (kept second page secondHeld)
  · intro other page rest
    rw [pages]
    exact tabbed.created other page (kept other page rest)
  · intro page member
    rw [pages]
    exact tabbed.counted page (List.mem_of_mem_erase member)

/-- What a close does: the session ends, or one tab goes and an active tab remains. -/
theorem tabClose_ok {session : BrowserSession} {tabId : String} {choice : Nat}
    {done : TabCloseResult × Option BrowserSession}
    (active : session.tabs.lookup session.activeTab = some session.page)
    (ok : session.tabClose tabId choice = .ok done) :
    ∃ closed, session.tabs.lookup tabId = some closed ∧ ∀ next, done.2 = some next →
      next.tabs = session.tabs.erase tabId ∧ next.pages = session.pages ∧
        next.tabs.lookup next.activeTab = some next.page := by
  unfold BrowserSession.tabClose at ok
  split at ok
  · cases ok
  · rename_i closed held
    refine ⟨closed, held, ?_⟩
    simp only at ok
    split at ok
    · cases ok
      intro next same
      cases same
    · rename_i fallback picked
      split at ok
      · cases ok
        intro next same
        obtain rfl := Option.some.inj same
        refine ⟨rfl, rfl, ?_⟩
        exact AList.mem_lookup_iff.mpr (List.mem_of_getElem? picked)
      · rename_i other
        cases ok
        intro next same
        obtain rfl := Option.some.inj same
        exact ⟨rfl, rfl, (AList.lookup_erase_ne other).trans active⟩

theorem tabSelect_ok {session : BrowserSession} {tabId : String} {url : Option String}
    {done : TabSelectResult × BrowserSession} (ok : session.tabSelect tabId url = .ok done) :
    done.2.tabs = session.tabs ∧ done.2.pages = session.pages ∧
      session.tabs.lookup done.2.activeTab = some done.2.page := by
  unfold BrowserSession.tabSelect at ok
  split at ok
  · cases ok
  · rename_i page held
    cases ok
    exact ⟨rfl, rfl, held⟩

theorem Tabbed.select {session next : BrowserSession} {openPages : List Page}
    (tabbed : Tabbed session openPages) (tabs : next.tabs = session.tabs)
    (pages : next.pages = session.pages)
    (active : session.tabs.lookup next.activeTab = some next.page) : Tabbed next openPages where
  reached := by rw [tabs]; exact tabbed.reached
  single := by rw [tabs]; exact tabbed.single
  created := by rw [tabs, pages]; exact tabbed.created
  counted := by rw [pages]; exact tabbed.counted
  distinct := tabbed.distinct
  active := by rw [tabs]; exact active

/-- The invariant of a run holds while a session lives. -/
def Kept (browsing : Browsing) : Prop :=
  ∀ session, browsing.store = some session → Tabbed session browsing.openPages

theorem Kept.step {browsing : Browsing} (kept : Kept browsing) (event : Event)
    (unused : IdUnused browsing event) : Kept (browsing.step event) := by
  obtain ⟨store, openPages⟩ := browsing
  cases store with
  | none =>
      intro next same
      cases same
  | some session =>
      have tabbed : Tabbed session openPages := kept session rfl
      intro next same
      cases event with
      | tabOpen params refused intercepts =>
          cases refused with
          | some reason =>
              cases same
              exact tabbed
          | none =>
              cases same
              exact tabbed.open (unused session rfl) rfl rfl rfl rfl
      | tabSelect tabId url =>
          simp only [Browsing.step, BrowserStore.step, BrowserStore.session] at same
          split at same
          · cases same
            exact tabbed
          · rename_i done ok
            obtain rfl := Option.some.inj same
            obtain ⟨tabs, pages, active⟩ := tabSelect_ok ok
            exact tabbed.select tabs pages active
      | tabClose tabId choice =>
          simp only [Browsing.step, BrowserStore.step, BrowserStore.session] at same
          simp only [Browsing.step, Option.elim_some, pagesAfter]
          split at same
          · rename_i failed
            obtain rfl := Option.some.inj same
            have missing : session.tabs.lookup tabId = none := by
              unfold BrowserSession.tabClose at failed
              split at failed
              · assumption
              · simp only at failed
                split at failed
                · cases failed
                · split at failed <;> cases failed
            rw [missing]
            exact tabbed
          · rename_i done ok
            obtain ⟨closed, held, rest⟩ := tabClose_ok tabbed.active ok
            obtain ⟨tabs, pages, active⟩ := rest next same
            rw [held]
            exact tabbed.close held tabs pages active
      | tabList =>
          cases same
          exact tabbed

theorem opensNew_of_unused {session : BrowserSession} {openPages : List Page} {event : Event}
    (unused : IdUnused ⟨some session, openPages⟩ event) : OpensNew session event := by
  cases event with
  | tabOpen params refused intercepts =>
      intro done ok
      cases refused with
      | some reason => cases ok
      | none =>
          cases ok
          refine ⟨unused session rfl, fun tabId page held => ?_⟩
          have different : tabId ≠ session.newTabId params := by
            rintro rfl
            rw [AList.lookup_eq_none.mpr (unused session rfl)] at held
            cases held
          exact (AList.lookup_insert_ne different).trans held
  | tabSelect => trivial
  | tabClose => trivial
  | tabList => trivial

theorem Kept.lawful_iff {browsing : Browsing} (kept : Kept browsing) (event : Event) :
    Lawful browsing event ↔ IdUnused browsing event := by
  constructor
  · intro lawful
    cases event with
    | tabOpen params refused intercepts =>
        cases refused with
        | some reason => trivial
        | none =>
            intro session held
            exact (lawful.opens session held _ rfl).1
    | tabSelect => trivial
    | tabClose => trivial
    | tabList => trivial
  · intro unused
    refine ⟨?_, fun session held => (kept.step event unused session held).registry⟩
    intro session held
    obtain ⟨store, openPages⟩ := browsing
    cases held
    exact opensNew_of_unused unused

theorem kept_launched : Kept launched := by
  intro session held
  cases held
  exact tabbed_launch

/-- A run keeps the registry in order exactly when no tab is opened under the id of an open one. -/
theorem registry_iff (events : List Event) :
    Throughout (fun before event => Lawful (run step launched before) event) events ↔
      Throughout (fun before event => IdUnused (run step launched before) event) events :=
  Throughout.iff_of_step Kept Lawful IdUnused kept_launched
    (fun _ event kept => kept.lawful_iff event) (fun _ event kept unused => kept.step event unused)
    events

/-- A tab is closed between two others, so that the count of the tabs gives an id for the second
time. -/
def reusedRun : List Event :=
  [.tabOpen ⟨none, none⟩ none true, .tabOpen ⟨none, none⟩ none true, .tabClose "tab-1" 0,
    .tabOpen ⟨none, none⟩ none true]

theorem reusedRun_loses_page :
    ¬ Throughout (fun before event => Lawful (run step launched before) event) reusedRun := by
  intro lawful
  have reached : ∃ session, (run step launched reusedRun).store = some session ∧
      2 ∈ (run step launched reusedRun).openPages ∧ 2 ∉ session.tabs.keys.filterMap session.tabs.lookup := by
    exact ⟨_, rfl, by decide, by decide⟩
  obtain ⟨session, held, member, missing⟩ := reached
  have last : Lawful (run step launched reusedRun.dropLast) (.tabOpen ⟨none, none⟩ none true) :=
    lawful reusedRun.dropLast _ [] rfl
  obtain ⟨tabId, stored, -⟩ := (last.registry session held).reachable 2 member
  refine missing (List.mem_filterMap.mpr ⟨tabId, ?_, stored⟩)
  exact List.mem_keys_of_mem (AList.mem_lookup_iff.mp stored)

end Browsing

end BrowserStore

end Daemon
