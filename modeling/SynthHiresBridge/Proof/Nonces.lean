import SynthHiresBridge.Daemon.LocalServer

namespace Daemon

open Transition

namespace LocalServer

def Happening.minting : Happening → Option (String × Nat)
  | .minted nonce moment => some (nonce, moment)
  | _ => none

def Happening.acceptance : Happening → Option (String × Nat)
  | .accepted nonce moment => some (nonce, moment)
  | _ => none

namespace ServerState

/-- The nonces that were ever minted, with the moments of their creation. -/
def minted (server : ServerState) : List (String × Nat) :=
  server.history.filterMap Happening.minting

/-- The nonces that were ever accepted, with the moments of their acceptance. -/
def accepted (server : ServerState) : List (String × Nat) :=
  server.history.filterMap Happening.acceptance

/-- An operation leaves the nonces and the clock alone. -/
structure SameNonces (server next : ServerState) : Prop where
  nonce : next.pairingNonce = server.pairingNonce
  now : next.now = server.now
  minted : next.minted = server.minted
  accepted : next.accepted = server.accepted

theorem SameNonces.refl (server : ServerState) : SameNonces server server :=
  ⟨rfl, rfl, rfl, rfl⟩

theorem SameNonces.note {server next : ServerState} (same : SameNonces server next)
    {happening : Happening} (minting : happening.minting = none)
    (acceptance : happening.acceptance = none) : SameNonces server (next.note happening) where
  nonce := same.nonce
  now := same.now
  minted := by simpa [ServerState.minted, ServerState.note, minting] using same.minted
  accepted := by simpa [ServerState.accepted, ServerState.note, acceptance] using same.accepted

theorem SameNonces.go {server next : ServerState} (same : SameNonces server next) (id : Nat)
    (phase : Phase) : SameNonces server (next.go id phase) :=
  ⟨same.nonce, same.now, same.minted, same.accepted⟩

theorem SameNonces.answer {server next : ServerState} (same : SameNonces server next) (id : Nat)
    (given : Answer) : SameNonces server (next.answer id given) :=
  have noted := @SameNonces.note _ _ same (.answered id given) rfl rfl
  ⟨noted.nonce, noted.now, noted.minted, noted.accepted⟩

theorem SameNonces.save {server next : ServerState} (same : SameNonces server next)
    (outcome : SaveOutcome) : SameNonces server (next.save outcome) := by
  cases outcome <;> exact ⟨same.nonce, same.now, same.minted, same.accepted⟩

/-- One step leaves the nonces alone, or it mints one, or it takes the one that is held. -/
inductive NonceStep (server next : ServerState) : Prop
  | quiet (nonce : next.pairingNonce = server.pairingNonce) (clock : server.now ≤ next.now)
      (minted : next.minted = server.minted) (accepted : next.accepted = server.accepted)
  | mint (fresh : String) (nonce : next.pairingNonce = some (fresh, server.now))
      (clock : next.now = server.now) (minted : next.minted = server.minted ++ [(fresh, server.now)])
      (accepted : next.accepted = server.accepted)
  | take (value : String) (created : Nat) (held : server.pairingNonce = some (value, created))
      (inTime : server.now - created ≤ nonceTtl) (nonce : next.pairingNonce = none)
      (clock : next.now = server.now) (minted : next.minted = server.minted)
      (accepted : next.accepted = server.accepted ++ [(value, server.now)])

theorem SameNonces.quiet {server next : ServerState} (same : SameNonces server next) :
    NonceStep server next :=
  .quiet same.nonce (by rw [same.now]) same.minted same.accepted

theorem NonceStep.then {server middle next : ServerState} (first : NonceStep server middle)
    (same : SameNonces middle next) : NonceStep server next := by
  cases first with
  | quiet nonce clock minted accepted =>
      exact .quiet (same.nonce.trans nonce) (by rw [same.now]; exact clock)
        (same.minted.trans minted) (same.accepted.trans accepted)
  | mint fresh nonce clock minted accepted =>
      exact .mint fresh (same.nonce.trans nonce) (same.now.trans clock) (same.minted.trans minted)
        (same.accepted.trans accepted)
  | take value created held inTime nonce clock minted accepted =>
      exact .take value created held inTime (same.nonce.trans nonce) (same.now.trans clock)
        (same.minted.trans minted) (same.accepted.trans accepted)

theorem nonceStep_replaceNonce (server : ServerState) (fresh : String) :
    NonceStep server (server.replaceNonce fresh) :=
  .mint fresh rfl rfl (by simp [minted, replaceNonce, note, Happening.minting])
    (by simp [accepted, replaceNonce, note, Happening.acceptance])

theorem nonceStep_mintNonce (server : ServerState) (fresh : String) :
    NonceStep server (server.mintNonce fresh).2 := by
  unfold mintNonce
  split
  · split
    · exact (SameNonces.refl server).quiet
    · exact server.nonceStep_replaceNonce fresh
  · exact server.nonceStep_replaceNonce fresh

/-- A nonce is taken when it is the one that is held and not too old. -/
theorem takeNonce_ok {server taken : ServerState} {presented : String}
    (passed : server.takeNonce presented = .ok taken) :
    ∃ created, server.pairingNonce = some (presented, created) ∧
      server.now - created ≤ nonceTtl ∧
      taken = { server.note (.accepted presented server.now) with pairingNonce := none } := by
  unfold takeNonce at passed
  split at passed
  · rename_i value created held
    split at passed
    · rename_i valid
      obtain ⟨rfl, inTime⟩ := valid
      exact ⟨created, held, inTime, (Except.ok.inj passed).symm⟩
    · cases passed
  · cases passed

theorem nonceStep_takeNonce {server taken : ServerState} {presented : String}
    (passed : server.takeNonce presented = .ok taken) : NonceStep server taken := by
  obtain ⟨created, held, inTime, rfl⟩ := takeNonce_ok passed
  exact .take presented created held inTime rfl rfl
    (by simp [minted, note, Happening.minting]) (by simp [accepted, note, Happening.acceptance])

theorem nonceStep_pastNonce (server : ServerState) (id : Nat) (presented : String)
    (next : ServerState → ServerState) (same : ∀ taken, SameNonces taken (next taken)) :
    NonceStep server (server.pastNonce id presented next) := by
  unfold pastNonce
  split
  · exact ((SameNonces.refl server).answer id _).quiet
  · rename_i taken passed
    exact (nonceStep_takeNonce passed).then (same taken)

theorem sameNonces_pairSave (server : ServerState) (id : Nat) (payload : PairRequest)
    (keyringHolds : Bool) : SameNonces server (server.pairSave id payload keyringHolds) := by
  unfold pairSave
  split
  · exact (SameNonces.refl server).answer id _
  · split
    · exact (SameNonces.refl server).answer id _
    · split
      · refine .go (.note ?_ rfl rfl) id _
        exact ⟨rfl, rfl, rfl, rfl⟩
      · exact (SameNonces.refl server).answer id _

theorem sameNonces_pairWrite (server : ServerState) (id : Nat) (payload : PairRequest)
    (device : String) (outcome : SaveOutcome) :
    SameNonces server (server.pairWrite id payload device outcome) := by
  refine .go (.note (.save ?_ outcome) rfl rfl) id _
  exact ⟨rfl, rfl, rfl, rfl⟩

theorem sameNonces_pairStart (server : ServerState) (id : Nat) (payload : PairRequest) :
    SameNonces server (server.pairStart id payload) := by
  refine .answer (.note ?_ rfl rfl) id _
  exact ⟨rfl, rfl, rfl, rfl⟩

theorem nonceStep_advance (server : ServerState) (id : Nat) (world : World) (phase : Phase) :
    NonceStep server (server.advance id world phase) := by
  have unchanged := SameNonces.refl server
  cases phase with
  | statusPaired => exact (unchanged.go id _).quiet
  | statusMint paired =>
      exact (server.nonceStep_mintNonce world.fresh).then ((SameNonces.refl _).go id _)
  | statusDevice paired nonce => exact (unchanged.answer id _).quiet
  | pairPaired payload =>
      rw [advance]
      split
      · exact ((unchanged.note rfl rfl).answer id _).quiet
      · exact (unchanged.go id _).quiet
  | pairNonce payload =>
      exact server.nonceStep_pastNonce id payload.nonce _ fun taken => (SameNonces.refl taken).go id _
  | pairSave payload => exact (server.sameNonces_pairSave id payload world.keyringHolds).quiet
  | pairWrite payload device =>
      exact (server.sameNonces_pairWrite id payload device world.outcome).quiet
  | pairStart payload => exact (server.sameNonces_pairStart id payload).quiet
  | unpairNonce nonce =>
      exact server.nonceStep_pastNonce id nonce _ fun taken => (SameNonces.refl taken).go id _
  | unpairRead => exact (unchanged.go id _).quiet
  | unpairDelete device => exact SameNonces.quiet ⟨rfl, rfl, rfl, rfl⟩
  | unpairClear =>
      refine SameNonces.quiet (.go (.save ?_ world.outcome) id _)
      exact ⟨rfl, rfl, rfl, rfl⟩
  | unpairStop => exact SameNonces.quiet ⟨rfl, rfl, rfl, rfl⟩
  | unpairMint =>
      exact (server.nonceStep_replaceNonce world.fresh).then ((SameNonces.refl _).answer id _)
  | shutdownNonce nonce =>
      refine server.nonceStep_pastNonce id nonce _ fun taken => .answer ?_ id _
      exact ⟨rfl, rfl, rfl, rfl⟩

theorem sameNonces_arrive (server : ServerState) (headers : Headers) (request : Request) :
    SameNonces server (server.arrive headers request) := by
  unfold arrive
  simp only
  split
  · refine .answer ?_ _ _
    exact ⟨rfl, rfl, rfl, rfl⟩
  · exact ⟨rfl, rfl, rfl, rfl⟩

theorem nonceStep_step (server : ServerState) (event : Event) :
    NonceStep server (server.step event) := by
  unfold step
  split
  · exact (SameNonces.refl server).quiet
  · cases event with
    | passes nanos => exact .quiet rfl (Nat.le_add_right server.now nanos) rfl rfl
    | arrive headers request => exact (server.sameNonces_arrive headers request).quiet
    | advance id world =>
        dsimp only
        split
        · exact (SameNonces.refl server).quiet
        · exact server.nonceStep_advance id world _

/-- Each nonce is accepted at most once and in time, and an accepted one is refused from then on. -/
structure SingleUse (server : ServerState) : Prop where
  once : (server.accepted.map Prod.fst).Nodup
  inTime : ∀ value moment, (value, moment) ∈ server.accepted →
    ∃ created, (value, created) ∈ server.minted ∧ created ≤ moment ∧ moment ≤ created + nonceTtl
  spent : ∀ value moment, (value, moment) ∈ server.accepted →
    server.takeNonce value = .error ⟨403, "Invalid nonce"⟩

/-- The nonce that is held was minted and not accepted yet. -/
structure Unspent (server : ServerState) (held : String × Nat) : Prop where
  minted : held ∈ server.minted
  past : held.2 ≤ server.now
  unused : held.1 ∉ server.accepted.map Prod.fst

structure NoncesInvariant (server : ServerState) : Prop where
  once : (server.accepted.map Prod.fst).Nodup
  inTime : ∀ value moment, (value, moment) ∈ server.accepted →
    ∃ created, (value, created) ∈ server.minted ∧ created ≤ moment ∧ moment ≤ created + nonceTtl
  held : ∀ held, server.pairingNonce = some held → Unspent server held

theorem NoncesInvariant.acceptedMinted {server : ServerState} (invariant : NoncesInvariant server)
    {value : String} (used : value ∈ server.accepted.map Prod.fst) :
    value ∈ server.minted.map Prod.fst := by
  obtain ⟨pair, member, rfl⟩ := List.mem_map.mp used
  obtain ⟨created, source, -⟩ := invariant.inTime pair.1 pair.2 member
  exact List.mem_map.mpr ⟨(pair.1, created), source, rfl⟩

/-- The minted values stay distinct as long as every mint has a new one. -/
theorem NonceStep.distinct_before {server next : ServerState} (taken : NonceStep server next)
    (distinct : (next.minted.map Prod.fst).Nodup) : (server.minted.map Prod.fst).Nodup := by
  cases taken with
  | quiet nonce clock minted accepted => rwa [← minted]
  | mint fresh nonce clock minted accepted =>
      rw [minted, List.map_append] at distinct
      exact distinct.of_append_left
  | take value created held inTime nonce clock minted accepted => rwa [← minted]

theorem NoncesInvariant.step {server next : ServerState} (invariant : NoncesInvariant server)
    (taken : NonceStep server next) (distinct : (next.minted.map Prod.fst).Nodup) :
    NoncesInvariant next := by
  cases taken with
  | quiet nonce clock minted accepted =>
      refine ⟨by rw [accepted]; exact invariant.once, ?_, ?_⟩
      · rw [accepted, minted]
        exact invariant.inTime
      · intro held same
        have unspent := invariant.held held (nonce.symm.trans same)
        exact ⟨by rw [minted]; exact unspent.minted, unspent.past.trans clock,
          by rw [accepted]; exact unspent.unused⟩
  | mint fresh nonce clock minted accepted =>
      refine ⟨by rw [accepted]; exact invariant.once, ?_, ?_⟩
      · intro value moment member
        rw [accepted] at member
        obtain ⟨created, source, bounds⟩ := invariant.inTime value moment member
        exact ⟨created, by rw [minted]; exact List.mem_append_left _ source, bounds⟩
      · intro held same
        rw [nonce] at same
        cases same
        refine ⟨by rw [minted]; exact List.mem_append_right _ (List.mem_singleton_self _),
          clock.symm.le, ?_⟩
        -- An accepted value was minted before, so the new one is not among them.
        rw [accepted]
        intro used
        rw [minted, List.map_append] at distinct
        exact List.disjoint_of_nodup_append distinct (invariant.acceptedMinted used) (by simp)
  | take value created held inTime nonce clock minted accepted =>
      have unspent := invariant.held (value, created) held
      refine ⟨?_, ?_, ?_⟩
      · rw [accepted, List.map_append, List.map_singleton]
        exact List.nodup_append.mpr ⟨invariant.once, List.nodup_singleton _, by
          rintro other used _ last rfl
          rw [List.mem_singleton.mp last] at used
          exact unspent.unused used⟩
      · intro other moment member
        rw [accepted] at member
        rw [minted]
        rcases List.mem_append.mp member with earlier | last
        · exact invariant.inTime other moment earlier
        · obtain ⟨rfl, rfl⟩ := Prod.mk.inj (List.mem_singleton.mp last)
          exact ⟨created, unspent.minted, unspent.past, by omega⟩
      · intro other same
        rw [nonce] at same
        cases same

theorem NoncesInvariant.singleUse {server : ServerState} (invariant : NoncesInvariant server) :
    SingleUse server := by
  refine ⟨invariant.once, invariant.inTime, ?_⟩
  intro value moment member
  unfold takeNonce
  split
  · rename_i held created same
    have unused : held ∉ server.accepted.map Prod.fst :=
      (invariant.held (held, created) same).unused
    rw [if_neg]
    rintro ⟨rfl, -⟩
    exact unused (List.mem_map.mpr ⟨(held, moment), member, rfl⟩)
  · rfl

theorem noncesInvariant_startHttpServer (daemonState : DaemonState) (tokens : Table String String)
    (wsHandle : Option (Nat × String)) (port : Nat) (fresh : String) :
    NoncesInvariant (startHttpServer daemonState tokens wsHandle port fresh) := by
  unfold startHttpServer
  simp only
  split
  · refine ⟨List.nodup_nil, fun value moment member => absurd member List.not_mem_nil, ?_⟩
    intro held same
    cases same
  · refine ⟨List.nodup_nil, fun value moment member => absurd member List.not_mem_nil, ?_⟩
    intro held same
    cases same
    exact ⟨List.mem_singleton_self _, le_rfl, by intro used; cases used⟩

theorem noncesInvariant_run (start : ServerState) (initial : NoncesInvariant start)
    (events : List Event) (distinct : ((run step start events).minted.map Prod.fst).Nodup) :
    NoncesInvariant (run step start events) := by
  induction events using List.reverseRecOn with
  | nil => exact initial
  | append_singleton events event ih =>
      rw [run_concat] at distinct ⊢
      have taken := (run step start events).nonceStep_step event
      exact (ih (taken.distinct_before distinct)).step taken distinct

/-- As long as the minted values are distinct, every nonce is used at most once, whatever the order
of the requests. -/
theorem nonces_single_use (daemonState : DaemonState) (tokens : Table String String)
    (wsHandle : Option (Nat × String)) (port : Nat) (fresh : String) (events : List Event)
    (distinct : ((run step (startHttpServer daemonState tokens wsHandle port fresh)
      events).minted.map Prod.fst).Nodup) :
    SingleUse (run step (startHttpServer daemonState tokens wsHandle port fresh) events) :=
  (noncesInvariant_run _ (noncesInvariant_startHttpServer daemonState tokens wsHandle port fresh)
    events distinct).singleUse

/-- The web application names its own origin and the address of the daemon. -/
def webHeaders : Headers := ⟨some "https://synthhires.com", some "127.0.0.1:7333"⟩

/-- Two requests present the nonce that was minted at the start. -/
def doubledRun : ServerState :=
  let world : World := ⟨"n1", true, .written⟩
  let pair : Request := .pair ⟨"t", "https://synthhires.com", "n0", some "d"⟩
  run step (startHttpServer .unpaired ∅ none 7333 "n0")
    [.arrive webHeaders pair, .arrive webHeaders (.unpair "n0"), .advance 0 world, .advance 0 world,
      .advance 1 world]

theorem doubledRun_single_use : doubledRun.accepted = [("n0", 0)] ∧ SingleUse doubledRun :=
  ⟨by decide, nonces_single_use .unpaired ∅ none 7333 "n0" _ (by decide)⟩

end ServerState

end LocalServer

end Daemon
