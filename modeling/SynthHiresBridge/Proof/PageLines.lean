import SynthHiresBridge.Data.DrainedRing
import SynthHiresBridge.Proof.Snapshots

namespace Daemon.BrowserStore

open Json DrainedRing

/-- A kind of line, with the ring that collects it and the field of a snapshot that shows it. -/
structure LineKind (Line : Type) where
  limit : Nat
  line : PageEvent → Option Line
  ring : Observed → List Line
  shown : SnapshotResult → List Line

def consoleLines : LineKind ConsoleLine :=
  ⟨consoleRing, PageEvent.consoleLine, Observed.console, SnapshotResult.console⟩

def networkLines : LineKind NetworkLine :=
  ⟨networkRing, PageEvent.networkLine, Observed.network, SnapshotResult.network⟩

namespace LineKind

variable {Line : Type} (kind : LineKind Line)

/-- What a turn is to the ring of a kind. A snapshot without a tree leaves it alone. -/
def event : PageTurn → Option (DrainedRing.Event Line)
  | .capture event free => (kind.line event).map fun found => .arrive found free
  | .snapshot _ page _ _ _ => if page.nodes.isOk then some .drain else none

def events (turns : List PageTurn) : List (DrainedRing.Event Line) := turns.filterMap kind.event

/-- The lines of a kind that the page reported. -/
def reported (turns : List PageTurn) : List Line :=
  (kind.events turns).filterMap DrainedRing.Event.item

def view (shown : Observed × List SnapshotResult) : State Line :=
  ⟨kind.ring shown.1, shown.2.map kind.shown⟩

/-- A turn does to the lines of a kind what its event does to a drained ring. -/
def Follows : Prop :=
  ∀ (host : OsAx.Host) (shown next : Observed × List SnapshotResult) (turn : PageTurn),
    pageTurn host shown turn = some next →
      kind.view next =
        (kind.event turn).elim (kind.view shown) (DrainedRing.step kind.limit (kind.view shown))

variable {kind}

theorem Follows.run (follows : kind.Follows) (host : OsAx.Host)
    (shown last : Observed × List SnapshotResult) (turns : List PageTurn)
    (ran : pageRun host shown turns = some last) :
    kind.view last = DrainedRing.run kind.limit (kind.view shown) (kind.events turns) := by
  induction turns generalizing shown with
  | nil =>
      cases ran
      rfl
  | cons turn rest ih =>
      rw [pageRun] at ran
      cases turned : pageTurn host shown turn with
      | none => rw [turned] at ran; cases ran
      | some next =>
          rw [turned] at ran
          have later := ih next ran
          have now := follows host shown next turn turned
          unfold events at later ⊢
          rw [later, now, List.filterMap_cons]
          cases kind.event turn <;> rfl

end LineKind

theorem pushRing_eq {Line : Type} (free : Bool) (ring : List Line) (line : Line) (cap : Nat) :
    pushRing free ring line cap = if free then push cap ring line else ring := rfl

/-- A snapshot gives out both rings and empties them, unless there is no tree. -/
theorem snapshotInner_lines {fuel : Nat} {host : OsAx.Host} {page : PageAnswers}
    {observed after : Observed} {limit : Nat} {focus : Option String} {budget : Option Nat}
    {outcome : Except BrowserError SnapshotResult}
    (ran : snapshotInner fuel host page observed limit focus budget = some (outcome, after)) :
    (page.nodes.isOk = false ∧ outcome.toOption = none ∧ after = observed) ∨
      page.nodes.isOk = true ∧ (∃ session, after = ⟨session, [], []⟩) ∧
        ∃ result, outcome.toOption = some result ∧ result.console = observed.console ∧
          result.network = observed.network := by
  unfold snapshotInner at ran
  cases tree : page.nodes with
  | error message =>
      simp only [tree] at ran
      cases ran
      exact .inl ⟨rfl, rfl, rfl⟩
  | ok nodes =>
      simp only [tree] at ran
      obtain ⟨rendered, -, same⟩ := Option.map_eq_some_iff.mp ran
      cases same
      exact .inr ⟨rfl, ⟨_, rfl⟩, _, rfl, rfl, rfl⟩

/-- A kind follows its ring when the listeners fill that ring and a snapshot shows it. -/
theorem LineKind.follows_of {Line : Type} {kind : LineKind Line}
    (captured : ∀ free observed event, kind.ring (capture free observed event) =
      (kind.line event).elim (kind.ring observed)
        fun line => pushRing free (kind.ring observed) line kind.limit)
    (emptied : ∀ session, kind.ring ⟨session, [], []⟩ = [])
    (given : ∀ observed result, result.console = observed.console →
      result.network = observed.network → kind.shown result = kind.ring observed) :
    kind.Follows := by
  intro host shown next turn turned
  cases turn with
  | capture event free =>
      cases turned
      cases found : kind.line event with
      | none => simp [view, LineKind.event, captured, found]
      | some line =>
          cases free <;>
            simp [view, LineKind.event, captured, found, pushRing_eq, DrainedRing.step]
  | snapshot fuel page limit focus budget =>
      obtain ⟨⟨outcome, after⟩, ran, rfl⟩ := Option.map_eq_some_iff.mp turned
      rcases snapshotInner_lines ran with
        ⟨bare, told, rfl⟩ | ⟨tree, ⟨session, rfl⟩, result, told, console, network⟩
      · simp [view, LineKind.event, bare, told]
      · simp [view, LineKind.event, tree, told, emptied, given shown.1 result console network,
          DrainedRing.step]

theorem consoleLines_follows : consoleLines.Follows :=
  LineKind.follows_of (fun _ _ _ => rfl) (fun _ => rfl) fun _ _ console _ => console

theorem networkLines_follows : networkLines.Follows :=
  LineKind.follows_of (fun _ _ _ => rfl) (fun _ => rfl) fun _ _ _ network => network

/-- The snapshots of a run show the lines of a kind as far as the ring keeps them. -/
structure ShowsLines {Line : Type} (kind : LineKind Line) (turns : List PageTurn)
    (observed : Observed) (results : List SnapshotResult) : Prop where
  batches : results.map kind.shown = (log (kind.events turns)).drained.map (last kind.limit)
  waiting : kind.ring observed = last kind.limit (log (kind.events turns)).ring
  ordered : ((results.map kind.shown).flatten ++ kind.ring observed).Sublist (kind.reported turns)
  complete : (results.map kind.shown).flatten ++ kind.ring observed = kind.reported turns ↔
    (∀ line, .arrive line false ∉ kind.events turns) ∧
      ∀ batch ∈ (log (kind.events turns)).batches, batch.length ≤ kind.limit

theorem LineKind.Follows.shows {Line : Type} {kind : LineKind Line} (follows : kind.Follows)
    (positive : 1 ≤ kind.limit) {host : OsAx.Host} {observed ended : Observed}
    {turns : List PageTurn} {results : List SnapshotResult} (fresh : kind.ring observed = [])
    (ran : pageRun host (observed, []) turns = some (ended, results)) :
    ShowsLines kind turns ended results := by
  have viewed := follows.run host _ _ turns ran
  have start : kind.view (observed, []) = State.empty := by
    rw [LineKind.view, fresh]
    rfl
  rw [start] at viewed
  have given : (DrainedRing.run kind.limit .empty (kind.events turns)).delivered =
      (results.map kind.shown).flatten ++ kind.ring ended := by
    rw [← viewed, delivered_eq]
    rfl
  have bounded := viewed.trans (run_eq_log positive (kind.events turns))
  refine ⟨congrArg State.drained bounded, congrArg State.ring bounded, ?_, ?_⟩
  · rw [← given]
    exact delivered_sublist positive (kind.events turns)
  · rw [← given]
    exact delivered_eq_iff positive (kind.events turns)

/-- A page reports an error before a snapshot. -/
def troubledPage : List PageTurn :=
  [.capture (.consoleApiCalled (.object [("args", .array [.object [("value", .string "lost")]]),
      ("type", .string "error")])) true,
    .snapshot 5 ⟨.ok [], none, none⟩ 350 none none]

end Daemon.BrowserStore
