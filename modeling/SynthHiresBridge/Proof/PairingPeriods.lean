import SynthHiresBridge.Daemon.LocalServer

namespace Daemon

open Transition

namespace LocalServer

/-- The answers that tell a client that a pairing began or ended. -/
def Happening.outcome : Happening → Option Answer
  | .answered _ .paired => some .paired
  | .answered _ .unpaired => some .unpaired
  | _ => none

/-- The traces that a request leaves when it stores a pairing or restarts the client. -/
def Happening.marks (id : Nat) : Happening → Bool
  | .tokenSaved request => request = id
  | .stateWritten request => request = id
  | .clientStarted request => request = id
  | _ => false

def Happening.aboutNonce : Happening → Bool
  | .minted _ _ => true
  | .accepted _ _ => true
  | _ => false

def Phase.finishesPair : Phase → Bool
  | .pairStart _ => true
  | _ => false

def Phase.finishesUnpair : Phase → Bool
  | .unpairStop => true
  | .unpairMint => true
  | _ => false

def Phase.checksPair : Phase → Bool
  | .pairPaired _ => true
  | _ => false

/-- Between two successful pairings there is a successful unpairing. -/
def OncePerPeriod (outcomes : List Answer) : Prop :=
  ∀ before between after, outcomes = before ++ .paired :: (between ++ .paired :: after) →
    .unpaired ∈ between

/-- A pairing after an unpairing begins a new period. -/
theorem OncePerPeriod.paired {outcomes : List Answer} (once : OncePerPeriod outcomes)
    (kinds : ∀ answer ∈ outcomes, answer = .paired ∨ answer = .unpaired)
    (apart : outcomes.getLast? ≠ some .paired) : OncePerPeriod (outcomes ++ [.paired]) := by
  intro before between after same
  rcases List.eq_nil_or_concat after with rfl | ⟨front, last, rfl⟩
  · have whole : outcomes = before ++ .paired :: between := by
      have parts : outcomes ++ [.paired] = (before ++ .paired :: between) ++ [.paired] := by
        rw [same, List.append_assoc, List.cons_append]
      exact (List.append_inj' parts rfl).1
    rcases List.eq_nil_or_concat between with rfl | ⟨front, last, rfl⟩
    · exact absurd (by simp [whole]) apart
    · have ends : outcomes.getLast? = some last := by
        rw [whole, List.concat_eq_append, ← List.cons_append, ← List.append_assoc]
        exact List.getLast?_concat
      rw [List.concat_eq_append] at whole ⊢
      rcases kinds last (List.mem_of_getLast? ends) with rfl | rfl
      · exact absurd ends apart
      · simp
  · have parts : outcomes ++ [.paired] =
        (before ++ .paired :: (between ++ .paired :: front)) ++ [last] := by
      rw [same]
      simp
    exact once before between front (List.append_inj' parts rfl).1

theorem OncePerPeriod.unpaired {outcomes : List Answer} (once : OncePerPeriod outcomes) :
    OncePerPeriod (outcomes ++ [.unpaired]) := by
  intro before between after same
  rcases List.eq_nil_or_concat after with rfl | ⟨front, last, rfl⟩
  · have parts : outcomes ++ [.unpaired] = (before ++ .paired :: between) ++ [.paired] := by
      rw [same, List.append_assoc, List.cons_append]
    cases (List.append_inj' parts rfl).2
  · have parts : outcomes ++ [.unpaired] =
        (before ++ .paired :: (between ++ .paired :: front)) ++ [last] := by
      rw [same]
      simp
    exact once before between front (List.append_inj' parts rfl).1

namespace ServerState

def outcomes (server : ServerState) : List Answer :=
  server.history.filterMap Happening.outcome

/-- The last pairing that was reported has not been undone by a reported unpairing. -/
def pairedLast (server : ServerState) : Prop :=
  server.outcomes.getLast? = some .paired

def Unmarked (server : ServerState) (id : Nat) : Prop :=
  ∀ happening ∈ server.history, happening.marks id = false

/-- Some request stands at a phase of a kind. -/
def standsAt (server : ServerState) (kind : Phase → Bool) : Bool :=
  server.inFlight.entries.any fun entry => kind entry.2

/-- The state is written while no pairing is on its way to its answer, and a pairing is written
while the daemon is unpaired and no unpairing is on its way to its answer. -/
def uncontended (server : ServerState) : Phase → Bool
  | .pairWrite _ _ => !server.isPaired && !server.standsAt Phase.finishesPair &&
      !server.standsAt Phase.finishesUnpair
  | .unpairClear => !server.standsAt Phase.finishesPair
  | _ => true

def serial (server : ServerState) : Event → Bool
  | .advance id _ => (server.inFlight.lookup id).all server.uncontended
  | _ => true

theorem standsAt_eq_false {server : ServerState} {kind : Phase → Bool}
    (absent : server.standsAt kind = false) {id : Nat} {phase : Phase}
    (stands : server.inFlight.lookup id = some phase) : kind phase = false := by
  rw [standsAt, List.any_eq_false] at absent
  have member : (⟨id, phase⟩ : Sigma fun _ : Nat => Phase) ∈ server.inFlight.entries :=
    AList.mem_lookup_iff.mp stands
  simpa using absent ⟨id, phase⟩ member

section Fields

variable (server : ServerState) (id : Nat) (phase : Phase) (given : Answer) (happening : Happening)

@[simp] theorem lookup_go : (server.go id phase).inFlight.lookup id = some phase :=
  AList.lookup_insert _

@[simp] theorem lookup_answer : (server.answer id given).inFlight.lookup id = none :=
  AList.lookup_erase _ _

theorem lookup_go_ne {other : Nat} (different : other ≠ id) :
    (server.go id phase).inFlight.lookup other = server.inFlight.lookup other :=
  AList.lookup_insert_ne different

theorem lookup_answer_ne {other : Nat} (different : other ≠ id) :
    (server.answer id given).inFlight.lookup other = server.inFlight.lookup other :=
  AList.lookup_erase_ne different

@[simp] theorem history_note : (server.note happening).history = server.history ++ [happening] := rfl

@[simp] theorem history_go : (server.go id phase).history = server.history := rfl

@[simp] theorem history_answer :
    (server.answer id given).history = server.history ++ [.answered id given] := rfl

@[simp] theorem history_save (outcome : SaveOutcome) :
    (server.save outcome).history = server.history := by
  cases outcome <;> rfl

@[simp] theorem inFlight_save (outcome : SaveOutcome) :
    (server.save outcome).inFlight = server.inFlight := by
  cases outcome <;> rfl

@[simp] theorem arrived_save (outcome : SaveOutcome) :
    (server.save outcome).arrived = server.arrived := by
  cases outcome <;> rfl

@[simp] theorem daemonState_save (outcome : SaveOutcome) :
    (server.save outcome).daemonState = server.daemonState := by
  cases outcome <;> rfl

@[simp] theorem inFlight_note : (server.note happening).inFlight = server.inFlight := rfl

@[simp] theorem arrived_note : (server.note happening).arrived = server.arrived := rfl

@[simp] theorem arrived_go : (server.go id phase).arrived = server.arrived := rfl

@[simp] theorem arrived_answer : (server.answer id given).arrived = server.arrived := rfl

@[simp] theorem daemonState_note :
    (server.note happening).daemonState = server.daemonState := rfl

@[simp] theorem daemonState_go : (server.go id phase).daemonState = server.daemonState := rfl

@[simp] theorem daemonState_answer :
    (server.answer id given).daemonState = server.daemonState := rfl

end Fields

/-- What one stretch of a handler does to the pairing and to the reported outcomes. -/
inductive PairingStep (server next : ServerState) (id : Nat) (phase : Phase) : Prop
  | aside (daemonState : next.daemonState = server.daemonState)
      (outcomes : next.outcomes = server.outcomes) (before : phase.finishesPair = false)
      (pairing : (next.inFlight.lookup id).any Phase.finishesPair = false)
      (unpairing : (next.inFlight.lookup id).any Phase.finishesUnpair = phase.finishesUnpair)
  | written (payload : PairRequest) (device : String) (stands : phase = .pairWrite payload device)
      (daemonState : next.daemonState = ⟨some device, some payload.backendUrl⟩)
      (outcomes : next.outcomes = server.outcomes)
      (after : next.inFlight.lookup id = some (.pairStart payload))
  | paired (payload : PairRequest) (stands : phase = .pairStart payload)
      (daemonState : next.daemonState = server.daemonState)
      (outcomes : next.outcomes = server.outcomes ++ [.paired])
      (after : next.inFlight.lookup id = none)
  | cleared (stands : phase = .unpairClear) (daemonState : next.daemonState = .unpaired)
      (outcomes : next.outcomes = server.outcomes)
      (after : next.inFlight.lookup id = some .unpairStop)
  | unpaired (stands : phase = .unpairMint) (daemonState : next.daemonState = server.daemonState)
      (outcomes : next.outcomes = server.outcomes ++ [.unpaired])
      (after : next.inFlight.lookup id = none)

/-- What one stretch of a handler records about the pairings. -/
inductive MarkStep (server next : ServerState) (id : Nat) (phase : Phase) : Prop
  | refused (stands : phase.checksPair = true) (after : next.inFlight.lookup id = none)
      (history : next.history = server.history ++
        [.foundPaired id, .answered id (.refused ⟨409, "Already paired"⟩)])
  | aside (added : List Happening) (history : next.history = server.history ++ added)
      (others : ∀ happening ∈ added, ∀ other, other ≠ id → happening.marks other = false)
      (own : phase.checksPair = true → ∀ happening ∈ added, happening.marks id = false)
      (found : ∀ request, .foundPaired request ∉ added)
      (after : (next.inFlight.lookup id).any Phase.checksPair = false)

/-- One stretch of a handler moves its own request only. -/
structure Stretch (server next : ServerState) (id : Nat) (phase : Phase) : Prop where
  others : ∀ other, other ≠ id → next.inFlight.lookup other = server.inFlight.lookup other
  arrived : next.arrived = server.arrived
  pairing : PairingStep server next id phase
  marks : MarkStep server next id phase

/-- An operation on other data leaves the pairing and the requests alone. -/
structure Alike (server next : ServerState) (added : List Happening) : Prop where
  daemonState : next.daemonState = server.daemonState
  inFlight : next.inFlight = server.inFlight
  arrived : next.arrived = server.arrived
  history : next.history = server.history ++ added
  nonces : ∀ happening ∈ added, happening.aboutNonce = true

theorem Alike.outcomes {server next : ServerState} {added : List Happening}
    (alike : Alike server next added) : next.outcomes = server.outcomes := by
  rw [ServerState.outcomes, alike.history, List.filterMap_append]
  have nothing : added.filterMap Happening.outcome = [] := by
    rw [List.filterMap_eq_nil_iff]
    intro happening member
    have about := alike.nonces happening member
    cases happening <;> first | rfl | cases about
  rw [nothing, List.append_nil]
  rfl

theorem Alike.unmarked {server next : ServerState} {added : List Happening}
    (alike : Alike server next added) {happening : Happening} (member : happening ∈ added)
    (request : Nat) : happening.marks request = false := by
  have about := alike.nonces happening member
  cases happening <;> first | rfl | cases about

theorem Alike.pairingStep {server middle next : ServerState} {added : List Happening} {id : Nat}
    {phase : Phase} (alike : Alike server middle added) (taken : PairingStep middle next id phase) :
    PairingStep server next id phase := by
  cases taken with
  | aside daemonState outcomes before pairing unpairing =>
      exact .aside (daemonState.trans alike.daemonState) (outcomes.trans alike.outcomes) before
        pairing unpairing
  | written payload device stands daemonState outcomes after =>
      exact .written payload device stands daemonState (outcomes.trans alike.outcomes) after
  | paired payload stands daemonState outcomes after =>
      exact .paired payload stands (daemonState.trans alike.daemonState)
        (by rw [outcomes, alike.outcomes]) after
  | cleared stands daemonState outcomes after =>
      exact .cleared stands daemonState (outcomes.trans alike.outcomes) after
  | unpaired stands daemonState outcomes after =>
      exact .unpaired stands (daemonState.trans alike.daemonState)
        (by rw [outcomes, alike.outcomes]) after

theorem Alike.then {server middle next : ServerState} {added : List Happening} {id : Nat}
    {phase : Phase} (alike : Alike server middle added) (check : phase.checksPair = false)
    (rest : Stretch middle next id phase) : Stretch server next id phase where
  others other different := by rw [rest.others other different, alike.inFlight]
  arrived := rest.arrived.trans alike.arrived
  pairing := alike.pairingStep rest.pairing
  marks := by
    cases rest.marks with
    | refused stands after history =>
        rw [check] at stands
        cases stands
    | aside more history others own found after =>
        refine .aside (added ++ more) (by rw [history, alike.history, List.append_assoc]) ?_ ?_ ?_
          after
        · intro happening member other different
          rcases List.mem_append.mp member with first | second
          · exact alike.unmarked first other
          · exact others happening second other different
        · intro stands
          rw [check] at stands
          cases stands
        · intro request member
          rcases List.mem_append.mp member with first | second
          · cases alike.nonces _ first
          · exact found request second

theorem alike_replaceNonce (server : ServerState) (fresh : String) :
    Alike server (server.replaceNonce fresh) [.minted fresh server.now] :=
  ⟨rfl, rfl, rfl, rfl, by simp [Happening.aboutNonce]⟩

theorem alike_mintNonce (server : ServerState) (fresh : String) :
    ∃ added, Alike server (server.mintNonce fresh).2 added := by
  unfold mintNonce
  split
  · split
    · exact ⟨[], rfl, rfl, rfl, by simp, by simp⟩
    · exact ⟨_, server.alike_replaceNonce fresh⟩
  · exact ⟨_, server.alike_replaceNonce fresh⟩

theorem alike_takeNonce {server taken : ServerState} {presented : String}
    (passed : server.takeNonce presented = .ok taken) : ∃ added, Alike server taken added := by
  unfold takeNonce at passed
  split at passed
  · rename_i value created held
    split at passed
    · cases passed
      exact ⟨_, rfl, rfl, rfl, rfl, by simp [Happening.aboutNonce]⟩
    · cases passed
  · cases passed

/-- A handler goes on to a phase that is neither a check nor the end of a pairing. -/
theorem stretch_go (server : ServerState) (id : Nat) {phase next : Phase}
    (before : phase.finishesPair = false) (pairing : next.finishesPair = false)
    (unpairing : next.finishesUnpair = phase.finishesUnpair) (check : next.checksPair = false) :
    Stretch server (server.go id next) id phase where
  others other different := server.lookup_go_ne id next different
  arrived := rfl
  pairing := .aside rfl rfl before (by simp [pairing]) (by simp [unpairing])
  marks := .aside [] (by simp) (by simp) (by simp) (by simp) (by simp [check])

/-- A handler ends with an answer that reports no pairing and no unpairing. -/
theorem stretch_answer (server : ServerState) (id : Nat) {phase : Phase} {given : Answer}
    (silent : (Happening.answered id given).outcome = none) (pair : phase.finishesPair = false)
    (unpair : phase.finishesUnpair = false) : Stretch server (server.answer id given) id phase where
  others other different := server.lookup_answer_ne id given different
  arrived := rfl
  pairing := .aside rfl (by simp [outcomes, silent]) pair (by simp) (by simp [unpair])
  marks := .aside [.answered id given] rfl (by simp [Happening.marks]) (by simp [Happening.marks])
    (by simp) (by simp)

theorem stretch_pastNonce (server : ServerState) (id : Nat) {phase : Phase} (presented : String)
    (next : ServerState → ServerState) (pair : phase.finishesPair = false)
    (unpair : phase.finishesUnpair = false) (check : phase.checksPair = false)
    (passed : ∀ taken, Stretch taken (next taken) id phase) :
    Stretch server (server.pastNonce id presented next) id phase := by
  unfold pastNonce
  split
  · exact server.stretch_answer id rfl pair unpair
  · rename_i taken accepted
    obtain ⟨added, alike⟩ := alike_takeNonce accepted
    exact alike.then check (passed taken)

theorem stretch_pairPaired (server : ServerState) (id : Nat) (world : World)
    (payload : PairRequest) :
    Stretch server (server.advance id world (.pairPaired payload)) id (.pairPaired payload) := by
  rw [advance]
  split
  · exact {
      others := fun other different => lookup_answer_ne _ id _ different
      arrived := rfl
      pairing := .aside rfl (by simp [outcomes, Happening.outcome]) rfl (by simp)
        (by simp [Phase.finishesUnpair])
      marks := .refused rfl (by simp) (by simp) }
  · exact server.stretch_go id rfl rfl rfl rfl

theorem stretch_pairSave (server : ServerState) (id : Nat) (payload : PairRequest)
    (keyringHolds : Bool) :
    Stretch server (server.pairSave id payload keyringHolds) id (.pairSave payload) := by
  unfold pairSave
  split
  · exact server.stretch_answer id rfl rfl rfl
  · split
    · exact server.stretch_answer id rfl rfl rfl
    · split
      · exact {
          others := fun other different => lookup_go_ne _ id _ different
          arrived := rfl
          pairing := .aside rfl (by simp [outcomes, Happening.outcome]) rfl
            (by simp [Phase.finishesPair]) (by simp [Phase.finishesUnpair])
          marks := .aside [.tokenSaved id] (by simp)
            (by simpa [Happening.marks] using fun other different => Ne.symm different) (by simp [Phase.checksPair]) (by simp)
            (by simp [Phase.checksPair]) }
      · exact server.stretch_answer id rfl rfl rfl

theorem stretch_pairWrite (server : ServerState) (id : Nat) (payload : PairRequest)
    (device : String) (outcome : SaveOutcome) :
    Stretch server (server.pairWrite id payload device outcome) id (.pairWrite payload device) where
  others other different := by simp [pairWrite, lookup_go_ne _ _ _ different]
  arrived := by simp [pairWrite]
  pairing := .written payload device rfl (by simp [pairWrite])
    (by simp [pairWrite, outcomes, Happening.outcome]) (by simp [pairWrite])
  marks := .aside [.stateWritten id] (by simp [pairWrite])
    (by simpa [Happening.marks] using fun other different => Ne.symm different) (by simp [Phase.checksPair]) (by simp)
    (by simp [pairWrite, Phase.checksPair])

theorem stretch_pairStart (server : ServerState) (id : Nat) (payload : PairRequest) :
    Stretch server (server.pairStart id payload) id (.pairStart payload) where
  others other different := by simp [pairStart, lookup_answer_ne _ _ _ different]
  arrived := by simp [pairStart]
  pairing := .paired payload rfl (by simp [pairStart])
    (by simp [pairStart, outcomes, List.filterMap_cons, Happening.outcome]) (by simp [pairStart])
  marks := .aside [.clientStarted id, .answered id .paired] (by simp [pairStart])
    (by simpa [Happening.marks] using fun other different => Ne.symm different) (by simp [Phase.checksPair]) (by simp)
    (by simp [pairStart])

theorem stretch_unpairClear (server : ServerState) (id : Nat) (outcome : SaveOutcome) :
    Stretch server (server.unpairClear id outcome) id .unpairClear where
  others other different := by simp [unpairClear, lookup_go_ne _ _ _ different]
  arrived := by simp [unpairClear]
  pairing := .cleared rfl (by simp [unpairClear]) (by simp [unpairClear, outcomes])
    (by simp [unpairClear])
  marks := .aside [] (by simp [unpairClear]) (by simp) (by simp) (by simp)
    (by simp [unpairClear, Phase.checksPair])

theorem stretch_unpairMint (server : ServerState) (id : Nat) (world : World) :
    Stretch server (server.advance id world .unpairMint) id .unpairMint := by
  refine (server.alike_replaceNonce world.fresh).then rfl ?_
  show Stretch _ ((server.replaceNonce world.fresh).answer id .unpaired) id .unpairMint
  exact {
    others := fun other different => lookup_answer_ne _ id _ different
    arrived := rfl
    pairing := .unpaired rfl rfl (by simp [outcomes, Happening.outcome]) (by simp)
    marks := .aside [.answered id .unpaired] (by simp) (by simp [Happening.marks])
      (by simp [Happening.marks]) (by simp) (by simp) }

theorem stretch_advance (server : ServerState) (id : Nat) (world : World) (phase : Phase) :
    Stretch server (server.advance id world phase) id phase := by
  cases phase with
  | statusPaired => exact server.stretch_go id rfl rfl rfl rfl
  | statusMint paired =>
      obtain ⟨added, alike⟩ := server.alike_mintNonce world.fresh
      exact alike.then rfl (stretch_go _ id rfl rfl rfl rfl)
  | statusDevice paired nonce => exact server.stretch_answer id rfl rfl rfl
  | pairPaired payload => exact server.stretch_pairPaired id world payload
  | pairNonce payload =>
      exact server.stretch_pastNonce id payload.nonce _ rfl rfl rfl fun taken =>
        taken.stretch_go id rfl rfl rfl rfl
  | pairSave payload => exact server.stretch_pairSave id payload world.keyringHolds
  | pairWrite payload device => exact server.stretch_pairWrite id payload device world.outcome
  | pairStart payload => exact server.stretch_pairStart id payload
  | unpairNonce nonce =>
      exact server.stretch_pastNonce id nonce _ rfl rfl rfl fun taken =>
        taken.stretch_go id rfl rfl rfl rfl
  | unpairRead => exact server.stretch_go id rfl rfl rfl rfl
  | unpairDelete device =>
      have alike : Alike server { server with tokens := device.elim server.tokens server.tokens.erase }
          [] := ⟨rfl, rfl, rfl, by simp, by simp⟩
      exact alike.then rfl (stretch_go _ id rfl rfl rfl rfl)
  | unpairClear => exact server.stretch_unpairClear id world.outcome
  | unpairStop =>
      have alike : Alike server { server with wsHandle := none } [] :=
        ⟨rfl, rfl, rfl, by simp, by simp⟩
      exact alike.then rfl (stretch_go _ id rfl rfl rfl rfl)
  | unpairMint => exact server.stretch_unpairMint id world
  | shutdownNonce nonce =>
      refine server.stretch_pastNonce id nonce _ rfl rfl rfl fun taken => ?_
      have alike : Alike taken { taken with exitAt := some (taken.now + 200 * 10 ^ 6) } [] :=
        ⟨rfl, rfl, rfl, by simp, by simp⟩
      exact alike.then rfl (stretch_answer _ id rfl rfl rfl)

theorem mem_outcomes {server : ServerState} {answer : Answer} (member : answer ∈ server.outcomes) :
    answer = .paired ∨ answer = .unpaired := by
  obtain ⟨happening, -, same⟩ := List.mem_filterMap.mp member
  unfold Happening.outcome at same
  split at same
  · exact .inl (Option.some.inj same).symm
  · exact .inr (Option.some.inj same).symm
  · cases same

/-- The phase of one request is of a kind. -/
def stands (server : ServerState) (id : Nat) (kind : Phase → Bool) : Bool :=
  (server.inFlight.lookup id).any kind

theorem stands_of_standsAt {server : ServerState} {kind : Phase → Bool}
    (absent : server.standsAt kind = false) (id : Nat) : server.stands id kind = false := by
  unfold stands
  cases held : server.inFlight.lookup id with
  | none => rfl
  | some phase => exact standsAt_eq_false absent held

theorem Stretch.stands_ne {server next : ServerState} {id other : Nat} {phase : Phase}
    (taken : Stretch server next id phase) (different : other ≠ id) (kind : Phase → Bool) :
    next.stands other kind = server.stands other kind := by
  rw [stands, taken.others other different, stands]

/-- Only requests that have arrived are in flight. -/
def Numbered (server : ServerState) : Prop :=
  ∀ id, server.arrived ≤ id → server.inFlight.lookup id = none

theorem Numbered.stretch {server next : ServerState} (numbered : Numbered server) {id : Nat}
    {phase : Phase} (held : server.inFlight.lookup id = some phase)
    (taken : Stretch server next id phase) : Numbered next := by
  intro other late
  rw [taken.arrived] at late
  have different : other ≠ id := by
    rintro rfl
    rw [numbered other late] at held
    cases held
  rw [taken.others other different]
  exact numbered other late

/-- A new request stands at its first phase, or it is refused. -/
structure Arrival (server next : ServerState) : Prop where
  others : ∀ other, other ≠ server.arrived →
    next.inFlight.lookup other = server.inFlight.lookup other
  arrived : next.arrived = server.arrived + 1
  daemonState : next.daemonState = server.daemonState
  outcomes : next.outcomes = server.outcomes
  pairing : next.stands server.arrived Phase.finishesPair = false
  unpairing : next.stands server.arrived Phase.finishesUnpair = false
  history : ∃ added, next.history = server.history ++ added ∧
    (∀ happening ∈ added, ∀ request, happening.marks request = false) ∧
    ∀ request, .foundPaired request ∉ added

theorem arrival_arrive (server : ServerState) (headers : Headers) (request : Request) :
    Arrival server (server.arrive headers request) := by
  unfold arrive
  simp only
  split
  · rename_i refusal refused
    exact {
      others := fun other different => lookup_answer_ne _ server.arrived _ different
      arrived := rfl
      daemonState := rfl
      outcomes := by simp [outcomes, Happening.outcome]
      pairing := by simp [stands]
      unpairing := by simp [stands]
      history := ⟨[.answered server.arrived (.refused refusal)], rfl, by simp [Happening.marks],
        by simp⟩ }
  · exact {
      others := fun other different => lookup_go_ne _ server.arrived _ different
      arrived := rfl
      daemonState := rfl
      outcomes := rfl
      pairing := by cases request <;> simp [stands, Request.first, Phase.finishesPair]
      unpairing := by cases request <;> simp [stands, Request.first, Phase.finishesUnpair]
      history := ⟨[], by simp, by simp, by simp⟩ }

/-- A step changes nothing here, or a request arrives, or one request moves on. -/
theorem step_cases (server : ServerState) (event : Event) :
    (∃ clock, server.step event = { server with now := clock }) ∨
      Arrival server (server.step event) ∨
      ∃ id world phase, event = .advance id world ∧ server.inFlight.lookup id = some phase ∧
        Stretch server (server.step event) id phase := by
  unfold step
  split
  · exact .inl ⟨server.now, rfl⟩
  · cases event with
    | passes nanos => exact .inl ⟨server.now + nanos, rfl⟩
    | arrive headers request => exact .inr (.inl (server.arrival_arrive headers request))
    | advance id world =>
        show _ ∨ _ ∨ _
        cases held : server.inFlight.lookup id with
        | none => exact .inl ⟨server.now, by simp [held]⟩
        | some phase =>
            refine .inr (.inr ⟨id, world, phase, rfl, held, ?_⟩)
            simp only [held]
            exact server.stretch_advance id world phase

theorem numbered_step {server : ServerState} (numbered : Numbered server) (event : Event) :
    Numbered (server.step event) := by
  rcases server.step_cases event with ⟨clock, same⟩ | arrival | ⟨id, world, phase, -, held, taken⟩
  · rw [same]
    exact numbered
  · intro id late
    rw [arrival.arrived] at late
    rw [arrival.others id (by omega)]
    exact numbered id (by omega)
  · exact numbered.stretch held taken

/-- While writes of the state are serial, at most one pairing is on its way to its answer, and a
daemon that is unpaired has reported no pairing since the last unpairing. -/
structure Periods (server : ServerState) : Prop where
  once : OncePerPeriod server.outcomes
  single : ∀ first second, server.stands first Phase.finishesPair = true →
    server.stands second Phase.finishesPair = true → first = second
  starting : ∀ id, server.stands id Phase.finishesPair = true →
    server.isPaired = true ∧ ¬ server.pairedLast
  unpaired : server.isPaired = false → (∀ id, server.stands id Phase.finishesUnpair = false) →
    ¬ server.pairedLast

theorem Periods.arrival {server next : ServerState} (periods : Periods server)
    (numbered : Numbered server) (arrival : Arrival server next) : Periods next := by
  have earlier : ∀ id, next.stands id Phase.finishesPair = true →
      server.stands id Phase.finishesPair = true := by
    intro id stands
    have different : id ≠ server.arrived := by
      rintro rfl
      rw [arrival.pairing] at stands
      cases stands
    rwa [ServerState.stands, arrival.others id different] at stands
  have paired : next.isPaired = server.isPaired := by rw [isPaired, arrival.daemonState, isPaired]
  have last : next.pairedLast ↔ server.pairedLast := by rw [pairedLast, arrival.outcomes, pairedLast]
  refine ⟨by rw [arrival.outcomes]; exact periods.once, ?_, ?_, ?_⟩
  · intro first second firstStands secondStands
    exact periods.single first second (earlier first firstStands) (earlier second secondStands)
  · intro id stands
    rw [paired, last]
    exact periods.starting id (earlier id stands)
  · intro free absent
    rw [last]
    refine periods.unpaired (paired ▸ free) fun id => ?_
    by_cases same : id = server.arrived
    · rw [same, ServerState.stands, numbered server.arrived le_rfl]
      rfl
    · rw [ServerState.stands, ← arrival.others id same]
      exact absent id

/-- A stretch that is not about the pairing keeps the periods. -/
theorem Periods.aside {server next : ServerState} (periods : Periods server) {id : Nat}
    {phase : Phase} (held : server.inFlight.lookup id = some phase)
    (taken : Stretch server next id phase) (daemonState : next.daemonState = server.daemonState)
    (outcomes : next.outcomes = server.outcomes)
    (pairing : (next.inFlight.lookup id).any Phase.finishesPair = false)
    (unpairing : (next.inFlight.lookup id).any Phase.finishesUnpair = phase.finishesUnpair) :
    Periods next := by
  have earlier : ∀ other, next.stands other Phase.finishesPair = true →
      server.stands other Phase.finishesPair = true := by
    intro other stands
    have different : other ≠ id := by
      rintro rfl
      rw [ServerState.stands, pairing] at stands
      cases stands
    rwa [taken.stands_ne different] at stands
  have paired : next.isPaired = server.isPaired := by rw [isPaired, daemonState, isPaired]
  have last : next.pairedLast ↔ server.pairedLast := by rw [pairedLast, outcomes, pairedLast]
  refine ⟨by rw [outcomes]; exact periods.once, ?_, ?_, ?_⟩
  · intro first second firstStands secondStands
    exact periods.single first second (earlier first firstStands) (earlier second secondStands)
  · intro other stands
    rw [paired, last]
    exact periods.starting other (earlier other stands)
  · intro free absent
    rw [last]
    refine periods.unpaired (paired ▸ free) fun other => ?_
    by_cases same : other = id
    · rw [same, ServerState.stands, held, Option.any_some, ← unpairing]
      exact absent id
    · rw [← taken.stands_ne same]
      exact absent other

theorem Periods.stretch {server next : ServerState} (periods : Periods server) {id : Nat}
    {phase : Phase} (held : server.inFlight.lookup id = some phase)
    (free : server.uncontended phase = true) (taken : Stretch server next id phase) :
    Periods next := by
  cases taken.pairing with
  | aside daemonState outcomes before pairing unpairing =>
      exact periods.aside held taken daemonState outcomes pairing unpairing
  | written payload device stands daemonState outcomes after =>
      subst stands
      simp only [uncontended, Bool.and_eq_true, Bool.not_eq_true'] at free
      obtain ⟨⟨unpaired, noPair⟩, noUnpair⟩ := free
      have paired : next.isPaired = true := by rw [isPaired, daemonState]; rfl
      have only : ∀ other, next.stands other Phase.finishesPair = true → other = id := by
        intro other stands
        by_contra different
        rw [taken.stands_ne different, stands_of_standsAt noPair] at stands
        cases stands
      refine ⟨by rw [outcomes]; exact periods.once, ?_, ?_, ?_⟩
      · intro first second firstStands secondStands
        rw [only first firstStands, only second secondStands]
      · intro other stands
        refine ⟨paired, ?_⟩
        rw [pairedLast, outcomes]
        exact periods.unpaired unpaired (stands_of_standsAt noUnpair)
      · intro still
        rw [paired] at still
        cases still
  | paired payload stands daemonState outcomes after =>
      subst stands
      have starting : server.stands id Phase.finishesPair = true := by
        rw [ServerState.stands, held]
        rfl
      obtain ⟨paired, apart⟩ := periods.starting id starting
      have none : ∀ other, next.stands other Phase.finishesPair = false := by
        intro other
        by_cases same : other = id
        · rw [same, ServerState.stands, after]
          rfl
        · rw [taken.stands_ne same]
          by_contra stands
          exact same (periods.single other id (by simpa using stands) starting)
      refine ⟨?_, ?_, ?_, ?_⟩
      · rw [outcomes]
        exact OncePerPeriod.paired periods.once (fun answer member => mem_outcomes member) apart
      · intro first second stands
        rw [none] at stands
        cases stands
      · intro other stands
        rw [none] at stands
        cases stands
      · intro still
        rw [isPaired, daemonState] at still
        rw [isPaired, still] at paired
        cases paired
  | cleared stands daemonState outcomes after =>
      subst stands
      simp only [uncontended, Bool.not_eq_true'] at free
      have none : ∀ other, next.stands other Phase.finishesPair = false := by
        intro other
        by_cases same : other = id
        · rw [same, ServerState.stands, after]
          rfl
        · rw [taken.stands_ne same]
          exact stands_of_standsAt free other
      refine ⟨by rw [outcomes]; exact periods.once, ?_, ?_, ?_⟩
      · intro first second stands
        rw [none] at stands
        cases stands
      · intro other stands
        rw [none] at stands
        cases stands
      · intro _ absent
        have finishing := absent id
        rw [ServerState.stands, after] at finishing
        cases finishing
  | unpaired stands daemonState outcomes after =>
      have earlier : ∀ other, next.stands other Phase.finishesPair = true →
          server.stands other Phase.finishesPair = true := by
        intro other stands
        have different : other ≠ id := by
          rintro rfl
          rw [ServerState.stands, after] at stands
          cases stands
        rwa [taken.stands_ne different] at stands
      have apart : ¬ next.pairedLast := by
        rw [pairedLast, outcomes, List.getLast?_concat]
        intro same
        cases same
      refine ⟨by rw [outcomes]; exact OncePerPeriod.unpaired periods.once, ?_, ?_, fun _ _ => apart⟩
      · intro first second firstStands secondStands
        exact periods.single first second (earlier first firstStands) (earlier second secondStands)
      · intro other stands
        refine ⟨?_, apart⟩
        rw [isPaired, daemonState]
        exact (periods.starting other (earlier other stands)).1

theorem Periods.step {server : ServerState} (periods : Periods server) (numbered : Numbered server)
    (event : Event) (serial : server.serial event = true) : Periods (server.step event) := by
  rcases server.step_cases event with ⟨clock, same⟩ | arrival | ⟨id, world, phase, rfl, held, taken⟩
  · rw [same]
    exact ⟨periods.once, periods.single, periods.starting, periods.unpaired⟩
  · exact periods.arrival numbered arrival
  · rw [ServerState.serial, held] at serial
    exact periods.stretch held serial taken

/-- A pairing that found the daemon paired is refused, and it stores and starts nothing. -/
structure Refusals (server : ServerState) : Prop where
  unmarked : ∀ id, server.arrived ≤ id ∨ server.stands id Phase.checksPair = true →
    server.Unmarked id
  unfound : ∀ id, server.arrived ≤ id ∨ (server.inFlight.lookup id).isSome = true →
    .foundPaired id ∉ server.history
  refused : ∀ id, .foundPaired id ∈ server.history →
    .answered id (.refused ⟨409, "Already paired"⟩) ∈ server.history ∧ server.Unmarked id

theorem Unmarked.append {server next : ServerState} {id : Nat} {added : List Happening}
    (unmarked : server.Unmarked id) (history : next.history = server.history ++ added)
    (more : ∀ happening ∈ added, happening.marks id = false) : next.Unmarked id := by
  intro happening member
  rw [history] at member
  rcases List.mem_append.mp member with earlier | now
  · exact unmarked happening earlier
  · exact more happening now

theorem Refusals.arrival {server next : ServerState} (refusals : Refusals server)
    (arrival : Arrival server next) : Refusals next := by
  obtain ⟨added, history, marks, found⟩ := arrival.history
  have unfound : ∀ id, .foundPaired id ∈ next.history → .foundPaired id ∈ server.history := by
    intro id member
    rw [history] at member
    exact (List.mem_append.mp member).resolve_right (found id)
  refine ⟨?_, ?_, ?_⟩
  · intro id cases
    refine Unmarked.append (refusals.unmarked id ?_) history fun happening member =>
      marks happening member id
    by_cases same : id = server.arrived
    · exact .inl same.ge
    · rw [arrival.arrived, ServerState.stands, arrival.others id same] at cases
      exact cases.imp_left fun late => by omega
  · intro id cases member
    refine refusals.unfound id ?_ (unfound id member)
    by_cases same : id = server.arrived
    · exact .inl same.ge
    · rw [arrival.arrived, arrival.others id same] at cases
      exact cases.imp_left fun late => by omega
  · intro id member
    obtain ⟨answered, unmarked⟩ := refusals.refused id (unfound id member)
    refine ⟨by rw [history]; exact List.mem_append_left _ answered, ?_⟩
    exact unmarked.append history fun happening member => marks happening member id

theorem Refusals.stretch {server next : ServerState} (refusals : Refusals server)
    (numbered : Numbered server) {id : Nat} {phase : Phase}
    (held : server.inFlight.lookup id = some phase) (taken : Stretch server next id phase) :
    Refusals next := by
  have early : ¬ server.arrived ≤ id := by
    intro late
    rw [numbered id late] at held
    cases held
  cases taken.marks with
  | refused stands after history =>
      have apart : ∀ other, server.arrived ≤ other ∨ (next.inFlight.lookup other).isSome = true →
          other ≠ id := by
        rintro other (late | flies) rfl
        · exact early late
        · rw [after] at flies
          cases flies
      have checked : server.stands id Phase.checksPair = true := by
        rw [ServerState.stands, held]
        exact stands
      have quiet : ∀ other, ∀ happening ∈ [Happening.foundPaired id,
          .answered id (.refused ⟨409, "Already paired"⟩)], happening.marks other = false := by
        simp [Happening.marks]
      refine ⟨?_, ?_, ?_⟩
      · intro other cases
        refine Unmarked.append (refusals.unmarked other ?_) history (quiet other)
        rw [taken.arrived] at cases
        rcases cases with late | checking
        · exact .inl late
        · have different : other ≠ id := by
            rintro rfl
            rw [ServerState.stands, after] at checking
            cases checking
          exact .inr (by rwa [← taken.stands_ne different])
      · intro other cases member
        rw [taken.arrived] at cases
        have different := apart other cases
        rw [taken.others other different] at cases
        rw [history] at member
        rcases List.mem_append.mp member with earlier | now
        · exact refusals.unfound other cases earlier
        · simp only [List.mem_cons, Happening.foundPaired.injEq, reduceCtorEq, List.not_mem_nil,
            or_false] at now
          exact different now
      · intro other member
        by_cases same : other = id
        · rw [same]
          refine ⟨by rw [history]; simp, ?_⟩
          exact Unmarked.append (refusals.unmarked id (.inr checked)) history (quiet id)
        · rw [history] at member
          have earlier : .foundPaired other ∈ server.history :=
            (List.mem_append.mp member).resolve_right (by simp [same])
          obtain ⟨answered, unmarked⟩ := refusals.refused other earlier
          refine ⟨by rw [history]; exact List.mem_append_left _ answered, ?_⟩
          exact unmarked.append history (quiet other)
  | aside added history others own found after =>
      have unfound : ∀ other, .foundPaired other ∈ next.history →
          .foundPaired other ∈ server.history := by
        intro other member
        rw [history] at member
        exact (List.mem_append.mp member).resolve_right (found other)
      refine ⟨?_, ?_, ?_⟩
      · intro other cases
        have different : other ≠ id := by
          rintro rfl
          rw [taken.arrived, ServerState.stands, after] at cases
          rcases cases with late | checking
          · exact early late
          · cases checking
        refine Unmarked.append (refusals.unmarked other ?_) history fun happening member =>
          others happening member other different
        rwa [taken.arrived, taken.stands_ne different] at cases
      · intro other cases member
        refine refusals.unfound other ?_ (unfound other member)
        by_cases same : other = id
        · rw [same, held]
          exact .inr rfl
        · rwa [taken.arrived, taken.others other same] at cases
      · intro other member
        have earlier := unfound other member
        have different : other ≠ id := by
          rintro rfl
          exact refusals.unfound other (.inr (by rw [held]; rfl)) earlier
        obtain ⟨answered, unmarked⟩ := refusals.refused other earlier
        refine ⟨by rw [history]; exact List.mem_append_left _ answered, ?_⟩
        exact unmarked.append history fun happening member =>
          others happening member other different

theorem Refusals.step {server : ServerState} (refusals : Refusals server)
    (numbered : Numbered server) (event : Event) : Refusals (server.step event) := by
  rcases server.step_cases event with ⟨clock, same⟩ | arrival | ⟨id, world, phase, -, held, taken⟩
  · rw [same]
    exact ⟨refusals.unmarked, refusals.unfound, refusals.refused⟩
  · exact refusals.arrival arrival
  · exact refusals.stretch numbered held taken

/-- One pairing succeeds in each period, and a refused one leaves everything as it was. -/
structure OnePairing (server : ServerState) : Prop where
  once : OncePerPeriod server.outcomes
  refused : ∀ id, .foundPaired id ∈ server.history →
    .answered id (.refused ⟨409, "Already paired"⟩) ∈ server.history ∧ server.Unmarked id

/-- The server starts with no request and no outcome. -/
structure Started (server : ServerState) : Prop where
  inFlight : server.inFlight = ∅
  outcomes : server.outcomes = []
  marks : ∀ id, server.Unmarked id
  found : ∀ id, .foundPaired id ∉ server.history

theorem started_startHttpServer (daemonState : DaemonState) (tokens : Table String String)
    (wsHandle : Option (Nat × String)) (port : Nat) (fresh : String) :
    Started (startHttpServer daemonState tokens wsHandle port fresh) := by
  unfold startHttpServer
  simp only
  split
  · refine ⟨rfl, rfl, ?_, ?_⟩
    · intro id happening member
      cases member
    · intro id member
      cases member
  · refine ⟨rfl, rfl, ?_, ?_⟩
    · intro id happening member
      rw [List.mem_singleton.mp member]
      rfl
    · intro id member
      cases List.mem_singleton.mp member

theorem Started.numbered {server : ServerState} (started : Started server) : Numbered server := by
  intro id _
  rw [started.inFlight]
  rfl

theorem Started.periods {server : ServerState} (started : Started server) : Periods server := by
  have none : ∀ id kind, server.stands id kind = false := by
    intro id kind
    rw [ServerState.stands, started.inFlight]
    rfl
  refine ⟨?_, ?_, ?_, ?_⟩
  · intro before between after same
    rw [started.outcomes] at same
    simp at same
  · intro first second stands
    rw [none] at stands
    cases stands
  · intro id stands
    rw [none] at stands
    cases stands
  · intro _ _ last
    rw [pairedLast, started.outcomes] at last
    cases last

theorem Started.refusals {server : ServerState} (started : Started server) : Refusals server where
  unmarked id _ := started.marks id
  unfound id _ := started.found id
  refused id member := absurd member (started.found id)

theorem refusals_run {start : ServerState} (started : Started start) (events : List Event) :
    Numbered (run step start events) ∧ Refusals (run step start events) := by
  induction events using List.reverseRecOn with
  | nil => exact ⟨started.numbered, started.refusals⟩
  | append_singleton events event ih =>
      obtain ⟨numbered, refusals⟩ := ih
      rw [run_concat]
      exact ⟨numbered_step numbered event, refusals.step numbered event⟩

theorem periods_run {start : ServerState} (started : Started start) (events : List Event)
    (serial : Throughout (fun before event => (run step start before).serial event = true) events) :
    Periods (run step start events) := by
  induction events using List.reverseRecOn with
  | nil => exact started.periods
  | append_singleton events event ih =>
      rw [run_concat]
      exact (ih serial.front).step (refusals_run started events).1 event serial.last

/-- As long as the handlers write the state one after the other, one pairing succeeds in each
period. -/
theorem one_pairing_per_period (daemonState : DaemonState) (tokens : Table String String)
    (wsHandle : Option (Nat × String)) (port : Nat) (fresh : String) (events : List Event)
    (serial : Throughout (fun before event =>
      (run step (startHttpServer daemonState tokens wsHandle port fresh) before).serial event = true)
      events) :
    OnePairing (run step (startHttpServer daemonState tokens wsHandle port fresh) events) := by
  have started := started_startHttpServer daemonState tokens wsHandle port fresh
  exact ⟨(periods_run started events serial).once, (refusals_run started events).2.refused⟩

/-- A request of the web application for a device, with the nonce that it read. -/
def webPair (nonce device : String) : Event :=
  .arrive ⟨some "https://synthhires.com", some "127.0.0.1:7333"⟩
    (.pair ⟨"t", "https://synthhires.com", nonce, some device⟩)

def webStatus : Event :=
  .arrive ⟨some "https://synthhires.com", some "127.0.0.1:7333"⟩ .status

def webUnpair (nonce : String) : Event :=
  .arrive ⟨some "https://synthhires.com", some "127.0.0.1:7333"⟩ (.unpair nonce)

/-- A handler runs some stretches in a row, with one value for the nonce it may mint. -/
def stretches (count id : Nat) (fresh : String) : List Event :=
  List.replicate count (.advance id ⟨fresh, true, .written⟩)

theorem one_pairing_second_refused :
    OnePairing (run step (startHttpServer .unpaired ∅ none 7333 "n0")
      [webPair "n0" "first", .advance 0 ⟨"", true, .written⟩, .advance 0 ⟨"", true, .written⟩,
        .advance 0 ⟨"", true, .written⟩, .advance 0 ⟨"", true, .written⟩,
        .advance 0 ⟨"", true, .written⟩, webPair "n0" "second", .advance 1 ⟨"", true, .written⟩]) :=
  one_pairing_per_period .unpaired ∅ none 7333 "n0" _
    (.cons rfl (.cons (by decide) (.cons (by decide) (.cons (by decide)
      (.cons (by decide) (.cons (by decide) (.cons rfl
        (.cons (by decide) (.nil _)))))))))

/-- Two pairings pass their check while the daemon is unpaired, the second one with a nonce that
`/status` mints after the first one took its own. -/
def racingRun : List Event :=
  [webStatus] ++ stretches 3 0 "n1" ++ [webUnpair "n1"] ++ stretches 6 1 "n2" ++
    [webPair "n2" "first"] ++ stretches 2 2 "" ++ [webStatus] ++ stretches 3 3 "n3" ++
    [webPair "n3" "second"] ++ stretches 2 4 "" ++ stretches 3 2 "" ++ stretches 3 4 "" ++
    [webStatus] ++ stretches 3 5 "n4" ++ [webUnpair "n4"] ++ stretches 6 6 "n5"

theorem racingRun_pairs_twice :
    (run step (startHttpServer ⟨some "old", none⟩ ∅ none 7333 "n0") racingRun).outcomes =
        [.unpaired, .paired, .paired, .unpaired] ∧
      ¬ OncePerPeriod (run step (startHttpServer ⟨some "old", none⟩ ∅ none 7333 "n0")
        racingRun).outcomes := by
  have outcomes : (run step (startHttpServer ⟨some "old", none⟩ ∅ none 7333 "n0")
      racingRun).outcomes = [.unpaired, .paired, .paired, .unpaired] := by decide +kernel
  refine ⟨outcomes, ?_⟩
  rw [outcomes]
  intro once
  exact List.not_mem_nil (once [.unpaired] [] [.unpaired] rfl)

end ServerState

end LocalServer

end Daemon
