import SynthHiresBridge.Daemon.OsAx
import SynthHiresBridge.Transition.Run

namespace Daemon

open Transition

namespace OsAx

/-- The lines of a rendered tree name the nodes whose identities are its refs, in their order. -/
theorem renderFrom_shows (host : Host) (limit count : Nat) (nodes : List OsNode) :
    ∃ shown : List OsNode, shown.Sublist nodes ∧
      (renderFrom host limit count nodes).2.1 = shown.map OsNode.identity ∧
      (renderFrom host limit count nodes).1 = String.join (shown.mapIdx fun place node =>
        renderNodeLine ((count + place : Nat) + 1) node 160 ++ "\n") := by
  induction nodes generalizing count with
  | nil => exact ⟨[], .slnil, rfl, rfl⟩
  | cons node rest ih =>
      rw [renderFrom]
      split
      · exact ⟨[], List.nil_sublist _, rfl, rfl⟩
      · split
        · obtain ⟨shown, inside, refs, text⟩ := ih (count + 1)
          refine ⟨node :: shown, inside.cons_cons node, ?_, ?_⟩
          · rw [List.map_cons, ← refs]
          · show _ ++ (renderFrom host limit (count + 1) rest).1 = _
            rw [text, List.mapIdx_cons, String.join_cons]
            simp only [Nat.add_zero, Nat.add_right_comm, ← Nat.add_assoc]
        · obtain ⟨shown, inside, refs, text⟩ := ih count
          exact ⟨shown, inside.cons node, refs, text⟩

/-- The text of a snapshot numbers its nodes from one, and a ref of it is the identity of its node. -/
theorem renderTree_shows (host : Host) (nodes : List OsNode) (limit : Nat) (focus : Option String) :
    ∃ shown : List OsNode, shown.Sublist nodes ∧
      (renderTree host nodes limit focus).text = String.join (shown.mapIdx fun place node =>
        renderNodeLine (place + 1) node 160 ++ "\n") ∧
      ∀ place, (OsRefs.mk (renderTree host nodes limit focus).refs).get (place + 1 : Nat) =
        shown[place]?.map OsNode.identity := by
  obtain ⟨shown, inside, refs, text⟩ :=
    renderFrom_shows host limit 0 (nodes.drop (windowStart host nodes focus))
  refine ⟨shown, inside.trans (List.drop_sublist _ _), ?_, ?_⟩
  · rw [renderTree, text]
    simp only [Nat.zero_add]
  · intro place
    have positive : (0 : Int) < (place + 1 : Nat) := by omega
    have same : ((place + 1 : Nat) - 1 : Int).toNat = place := by omega
    rw [OsRefs.get, if_pos positive, same, renderTree, refs, List.getElem?_map]

/-- The reader of the snapshots knows the refs of the text that was returned last. -/
structure Desk where
  engine : OsAxEngine
  shown : Option OsRefs

/-- A call comes with what the platform answers and with the order in which the table is visited. -/
inductive Call where
  | snapshot (params : OsSnapshotParams) (connects : Except OsError Unit) (walk : Walk)
  | act (params : OsActParams) (connects : Except OsError Unit) (order : List String)
      (acts : Except OsError String) (walk : Walk)

namespace Desk

def new : Desk := ⟨.new, none⟩

/-- The last text stays the last one until a call returns another. -/
def after {Result : Type} (desk : Desk) (outcome : Outcome Result) : Desk :=
  ⟨outcome.engine, outcome.shown <|> desk.shown⟩

/-- An act visits every application of the table once. -/
def step (host : Host) (desk : Desk) : Call → Desk
  | .snapshot params connects walk => desk.after (desk.engine.snapshot host params connects walk)
  | .act params connects order acts walk =>
      if order.Perm desk.engine.sessions.keys then
        desk.after (desk.engine.act host params connects order acts walk)
      else desk

/-- The node that the last returned text showed under a ref. -/
def named (desk : Desk) (ref : Int) : Option String :=
  desk.shown.bind fun refs => refs.get ref

/-- The actions of an act are in order, and the backend is there. -/
def Reaches (desk : Desk) (params : OsActParams) (connects : Except OsError Unit) : Prop :=
  OsAxEngine.checkAction params = .ok () ∧ (desk.engine.connected = true ∨ connects = .ok ())

/-- An act drives the node that was last shown under its ref, and it knows no ref that was not. -/
structure Driven (desk : Desk) (params : OsActParams) (connects : Except OsError Unit)
    (outcome : Outcome OsActResult) : Prop where
  only : ∀ identity, outcome.performed = some identity →
    desk.named params.elementRef = some identity
  shown : ∀ identity, desk.Reaches params connects → desk.named params.elementRef = some identity →
    outcome.performed = some identity
  unknown : desk.Reaches params connects → desk.named params.elementRef = none →
    outcome.result = .error (.unknownRef params.elementRef)

/-- An act is right for every order in which the table can be visited. -/
def ActsOnShown (host : Host) (desk : Desk) : Call → Prop
  | .snapshot _ _ _ => True
  | .act params connects _ acts walk =>
      ∀ order : List String, order.Perm desk.engine.sessions.keys →
        desk.Driven params connects (desk.engine.act host params connects order acts walk)

/-- All stored snapshots that have a node under the ref of an act have the one that was last shown. -/
def Unambiguous (desk : Desk) : Call → Prop
  | .snapshot _ _ _ => True
  | .act params connects _ _ _ =>
      desk.Reaches params connects →
        ∀ app refs identity, desk.engine.sessions.lookup app = some refs →
          refs.get params.elementRef = some identity → desk.named params.elementRef = some identity

/-- The last text is the one of a stored snapshot. -/
structure Stored (desk : Desk) : Prop where
  nothing : desk.shown = none → ∀ app, desk.engine.sessions.lookup app = none
  something : ∀ refs, desk.shown = some refs → ∃ app, desk.engine.sessions.lookup app = some refs

theorem stored_new : Stored .new := ⟨fun _ _ => rfl, nofun⟩

end Desk

/-- A call stores just the snapshot that it returns. -/
def Outcome.Records {Result : Type} (engine : OsAxEngine) (outcome : Outcome Result) : Prop :=
  (outcome.shown = none ∧ outcome.engine.sessions = engine.sessions) ∨
    ∃ app refs, outcome.shown = some refs ∧
      outcome.engine.sessions = engine.sessions.insert app refs

namespace OsAxEngine

theorem ensureBackend_ok {engine next : OsAxEngine} {connects : Except OsError Unit}
    (done : engine.ensureBackend connects = .ok next) :
    (engine.connected = true ∨ connects = .ok ()) ∧ next.sessions = engine.sessions := by
  unfold ensureBackend at done
  split at done
  · rename_i connected
    cases done
    exact ⟨.inl connected, rfl⟩
  · split at done
    · cases done
    · cases done
      exact ⟨.inr rfl, rfl⟩

theorem ensureBackend_reached {engine : OsAxEngine} {connects : Except OsError Unit}
    (there : engine.connected = true ∨ connects = .ok ()) :
    ∃ next, engine.ensureBackend connects = .ok next := by
  unfold ensureBackend
  split
  · exact ⟨engine, rfl⟩
  · rename_i missing
    rcases there with connected | rfl
    · exact absurd connected missing
    · exact ⟨_, rfl⟩

theorem snapshot_records (host : Host) (engine : OsAxEngine) (params : OsSnapshotParams)
    (connects : Except OsError Unit) (walk : Walk) :
    (engine.snapshot host params connects walk).Records engine := by
  rw [snapshot]
  dsimp only
  split
  · exact .inl ⟨rfl, rfl⟩
  · split
    · exact .inl ⟨rfl, rfl⟩
    · rename_i next done
      have kept := (ensureBackend_ok done).2
      split
      · exact .inl ⟨rfl, kept⟩
      · rw [Outcome.Records, ← kept]
        exact .inr ⟨_, _, rfl, rfl⟩

theorem act_records (host : Host) (engine : OsAxEngine) (params : OsActParams)
    (connects : Except OsError Unit) (order : List String) (acts : Except OsError String)
    (walk : Walk) : (engine.act host params connects order acts walk).Records engine := by
  rw [act]
  split
  · exact .inl ⟨rfl, rfl⟩
  · split
    · exact .inl ⟨rfl, rfl⟩
    · rename_i next done
      have kept := (ensureBackend_ok done).2
      split
      · exact .inl ⟨rfl, kept⟩
      · split
        · exact .inl ⟨rfl, kept⟩
        · split
          · exact .inl ⟨rfl, kept⟩
          · rw [Outcome.Records, ← kept]
            exact .inr ⟨_, _, rfl, rfl⟩

theorem owner_sessions {engine next : OsAxEngine} (same : next.sessions = engine.sessions)
    (order : List String) (ref : Int) : next.owner order ref = engine.owner order ref := by
  rw [owner, owner, same]

theorem owner_some {engine : OsAxEngine} {order : List String} {ref : Int} {app identity : String}
    (found : engine.owner order ref = some (app, identity)) :
    ∃ refs, engine.sessions.lookup app = some refs ∧ refs.get ref = some identity := by
  obtain ⟨visited, -, hit⟩ := List.exists_of_findSome?_eq_some found
  obtain ⟨held, refs, same⟩ := Option.map_eq_some_iff.mp hit
  obtain ⟨rfl, rfl⟩ := Prod.mk.inj same
  exact Option.bind_eq_some_iff.mp refs

theorem owner_none {engine : OsAxEngine} {order : List String} {ref : Int}
    (missed : engine.owner order ref = none) (all : order.Perm engine.sessions.keys)
    {app : String} {refs : OsRefs} (held : engine.sessions.lookup app = some refs) :
    refs.get ref = none := by
  have visited : app ∈ order := by
    rw [all.mem_iff, ← AList.mem_keys, ← AList.lookup_isSome, held]
    rfl
  have passed := List.findSome?_eq_none_iff.mp missed app visited
  rwa [Option.map_eq_none_iff, held] at passed

theorem owner_first {engine : OsAxEngine} {order : List String} {ref : Int} {app identity : String}
    {refs : OsRefs} (held : engine.sessions.lookup app = some refs)
    (shown : refs.get ref = some identity) :
    engine.owner (app :: order) ref = some (app, identity) := by
  rw [owner, List.findSome?_cons, held, Option.bind_some, shown]
  rfl

/-- What an act drives is what the lookup finds. -/
theorem act_performed {host : Host} {engine : OsAxEngine} {params : OsActParams}
    {connects : Except OsError Unit} {order : List String} {acts : Except OsError String}
    {walk : Walk} {identity : String}
    (performed : (engine.act host params connects order acts walk).performed = some identity) :
    checkAction params = .ok () ∧ (engine.connected = true ∨ connects = .ok ()) ∧
      ∃ app, engine.owner order params.elementRef = some (app, identity) := by
  rw [act] at performed
  split at performed
  · cases performed
  · rename_i checked
    split at performed
    · cases performed
    · rename_i next done
      obtain ⟨there, kept⟩ := ensureBackend_ok done
      refine ⟨checked, there, ?_⟩
      split at performed
      · cases performed
      · rename_i app held found
        rw [owner_sessions kept] at found
        refine ⟨app, ?_⟩
        rw [found]
        split at performed
        · exact congrArg (fun driven => some (app, driven)) (Option.some.inj performed)
        · split at performed
          · exact congrArg (fun driven => some (app, driven)) (Option.some.inj performed)
          · exact congrArg (fun driven => some (app, driven)) (Option.some.inj performed)

theorem act_found {host : Host} {engine : OsAxEngine} {params : OsActParams}
    {connects : Except OsError Unit} {order : List String} {acts : Except OsError String}
    {walk : Walk} {app identity : String} (checked : checkAction params = .ok ())
    (there : engine.connected = true ∨ connects = .ok ())
    (found : engine.owner order params.elementRef = some (app, identity)) :
    (engine.act host params connects order acts walk).performed = some identity := by
  obtain ⟨next, done⟩ := ensureBackend_reached there
  have same := owner_sessions (ensureBackend_ok done).2 order params.elementRef
  simp only [act, checked, done, same.trans found]
  cases acts with
  | error error => rfl
  | ok detail =>
      cases walk with
      | error error => rfl
      | ok read => rfl

theorem act_missed {host : Host} {engine : OsAxEngine} {params : OsActParams}
    {connects : Except OsError Unit} {order : List String} {acts : Except OsError String}
    {walk : Walk} (checked : checkAction params = .ok ())
    (there : engine.connected = true ∨ connects = .ok ())
    (missed : engine.owner order params.elementRef = none) :
    (engine.act host params connects order acts walk).result =
      .error (.unknownRef params.elementRef) := by
  obtain ⟨next, done⟩ := ensureBackend_reached there
  have same := owner_sessions (ensureBackend_ok done).2 order params.elementRef
  simp only [act, checked, done, same.trans missed]
  rfl

end OsAxEngine

namespace Desk

theorem Stored.after {Result : Type} {desk : Desk} (stored : desk.Stored)
    {outcome : Outcome Result} (records : outcome.Records desk.engine) :
    (desk.after outcome).Stored := by
  rcases records with ⟨quiet, same⟩ | ⟨app, refs, told, same⟩
  · have last : (desk.after outcome).shown = desk.shown := by
      rw [Desk.after, quiet]
      rfl
    have tables : (desk.after outcome).engine.sessions = desk.engine.sessions := same
    refine ⟨?_, ?_⟩
    · rw [last, tables]
      exact stored.nothing
    · rw [last, tables]
      exact stored.something
  · have last : (desk.after outcome).shown = some refs := by
      rw [Desk.after, told]
      rfl
    have tables : (desk.after outcome).engine.sessions = desk.engine.sessions.insert app refs := same
    refine ⟨?_, ?_⟩
    · intro none
      rw [last] at none
      cases none
    · intro held some
      rw [last] at some
      obtain rfl := Option.some.inj some
      rw [tables]
      exact ⟨app, AList.lookup_insert _⟩

theorem Stored.step {desk : Desk} (stored : desk.Stored) (host : Host) (call : Call) :
    (desk.step host call).Stored := by
  cases call with
  | snapshot params connects walk => exact stored.after (OsAxEngine.snapshot_records _ _ _ _ _)
  | act params connects order acts walk =>
      rw [Desk.step]
      split
      · exact stored.after (OsAxEngine.act_records _ _ _ _ _ _ _)
      · exact stored

theorem Stored.actsOnShown_iff {desk : Desk} (stored : desk.Stored) (host : Host) (call : Call) :
    desk.ActsOnShown host call ↔ desk.Unambiguous call := by
  cases call with
  | snapshot params connects walk => exact Iff.rfl
  | act params connects order acts walk =>
      constructor
      · rintro right ⟨checked, there⟩ app refs identity held shown
        have member : app ∈ desk.engine.sessions.keys := by
          rw [← AList.mem_keys, ← AList.lookup_isSome, held]
          rfl
        -- The table may visit this application first.
        have driven := right _ (List.perm_cons_erase member).symm
        exact driven.only identity (OsAxEngine.act_found checked there
          (OsAxEngine.owner_first held shown))
      · intro agrees order all
        refine ⟨?_, ?_, ?_⟩
        · intro identity performed
          obtain ⟨checked, there, app, found⟩ := OsAxEngine.act_performed performed
          obtain ⟨refs, held, shown⟩ := OsAxEngine.owner_some found
          exact agrees ⟨checked, there⟩ app refs identity held shown
        · rintro identity ⟨checked, there⟩ named
          obtain ⟨refs, last, shown⟩ := Option.bind_eq_some_iff.mp named
          obtain ⟨app, held⟩ := stored.something refs last
          cases found : desk.engine.owner order params.elementRef with
          | none =>
              rw [OsAxEngine.owner_none found all held] at shown
              cases shown
          | some owner =>
              obtain ⟨other, others, same⟩ := OsAxEngine.owner_some found
              have agreed := agrees ⟨checked, there⟩ _ _ _ others same
              rw [OsAxEngine.act_found checked there found, ← agreed, named]
        · rintro ⟨checked, there⟩ unnamed
          cases found : desk.engine.owner order params.elementRef with
          | none => exact OsAxEngine.act_missed checked there found
          | some owner =>
              obtain ⟨refs, held, shown⟩ := OsAxEngine.owner_some found
              rw [agrees ⟨checked, there⟩ _ _ _ held shown] at unnamed
              cases unnamed

def lowercaseAscii : Host := ⟨String.map Char.toLower⟩

def pushButton (name identity : String) : OsNode :=
  ⟨"push button", name, ⟨true, false, false, none, false⟩, ["click"], identity⟩

/-- A mail window is read, then a calculator, and then its button is pressed. -/
def twoApps : List Call :=
  [.snapshot ⟨"Mail", none, none⟩ (.ok ()) (.ok (none, [pushButton "Delete all" ":1.7/delete"])),
    .snapshot ⟨"Calculator", none, none⟩ (.ok ()) (.ok (none, [pushButton "Equals" ":1.9/equals"])),
    .act ⟨1, "press", none⟩ (.ok ()) ["Mail", "Calculator"] (.ok "click")
      (.ok (none, [pushButton "Delete all" ":1.7/delete"]))]

/-- The press goes to the button of the mail window. -/
theorem twoApps_drives_earlier :
    ¬ Throughout (fun before call =>
      ActsOnShown lowercaseAscii (run (step lowercaseAscii) new before) call) twoApps := by
  intro all
  have driven := all (twoApps.take 2) _ [] rfl ["Mail", "Calculator"] (by decide)
  have last : (run (step lowercaseAscii) new (twoApps.take 2)).named 1 = some ":1.9/equals" := by
    decide
  have other := driven.only ":1.7/delete" (by decide)
  rw [last] at other
  exact absurd other (by decide)

/-- In a run of calls each act drives the node that was last shown under its ref if and only if, at
each act, no stored snapshot has another node under this ref. -/
theorem acts_on_shown_iff (host : Host) (calls : List Call) :
    Throughout (fun before call => ActsOnShown host (run (step host) new before) call) calls ↔
      Throughout (fun before call => Unambiguous (run (step host) new before) call) calls :=
  Throughout.iff_of_step Stored (ActsOnShown host) Unambiguous stored_new
    (fun _ call stored => stored.actsOnShown_iff host call)
    (fun _ call stored _ => stored.step host call) calls

end Desk

end OsAx

end Daemon
