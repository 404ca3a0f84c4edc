import SynthHiresBridge.Proof.Refinement

namespace Daemon

open Posix Transition

namespace WsClient

/-- The number of results sent for an action. -/
def results (client : WsClient) (id : String) : Nat :=
  client.sent.countP fun frame => frame.resultId = some id

theorem results_congr {first second : WsClient} (sent : first.sent = second.sent) (id : String) :
    first.results id = second.results id := by
  rw [results, results, sent]

/-- Frames that are no results leave the count alone. -/
theorem results_append (before after : WsClient) (frames : List SentFrame)
    (sent : after.sent = before.sent ++ frames) (silent : ∀ frame ∈ frames, frame.resultId = none)
    (id : String) : after.results id = before.results id := by
  have none : frames.countP (fun frame => frame.resultId = some id) = 0 := by
    rw [List.countP_eq_zero]
    intro frame member
    simp [silent frame member]
  rw [results, results, sent, List.countP_append, none, Nat.add_zero]

theorem Idles.results {before after : WsClient} (idles : Idles before after) (id : String) :
    after.results id = before.results id := by
  obtain ⟨frames, sent, silent⟩ := idles.sent
  exact results_append before after frames sent silent id

/-- An answered action has one more result, and every other action has as many as before. -/
theorem Answers.results {before after : WsClient} {own : String}
    (answers : Answers before after own) (id : String) :
    after.results id = before.results id + if own = id then 1 else 0 := by
  obtain ⟨frames, result, sent, rfl, silent⟩ := answers.sent
  have none : frames.countP (fun frame => frame.resultId = some id) = 0 := by
    rw [List.countP_eq_zero]
    intro frame member
    simp [silent frame member]
  rw [WsClient.results, WsClient.results, sent, List.countP_append, List.countP_append, none,
    Nat.add_zero, List.countP_singleton]
  simp [SentFrame.resultId]

theorem sendError_results (client : WsClient) (own error id : String) :
    (client.sendError own error).results id = client.results id + if own = id then 1 else 0 :=
  (Answers.of_sendError client client own error rfl rfl rfl rfl).results id

theorem raisePrompt_results (client : WsClient) (request : ActionRequestFrame)
    (prompt : ConsentPrompt) (id : String) :
    (client.raisePrompt request prompt).results id = client.results id :=
  results_append client _ [.consentPrompt ⟨protocolVersion, prompt.actionId, prompt.capability,
    prompt.summary, "", prompt.path⟩] rfl (by simp [SentFrame.resultId]) id

@[simp] theorem remembered_sent (client : WsClient) (path : String) (answer : ConsentAnswer) :
    (client.remembered path answer).sent = client.sent := by
  unfold remembered
  split <;> rfl

/-- A resumed action has one more result. -/
theorem handleAction_decided_results (client : WsClient) (host : Host) (moment : Moment)
    (request : ActionRequestFrame) (answer : ConsentAnswer) (id : String) :
    (client.handleAction host moment request (some answer)).results id =
      client.results id + if request.id = id then 1 else 0 := by
  rcases client.handleAction_decided host moment request answer with
    answers | ⟨capability, path, -, -, -, answers⟩
  · exact answers.results id
  · rw [answers.results id, results_congr (client.remembered_sent path answer)]

/-- A new request is parked without a result, or it has one more result. -/
theorem handleAction_new (client : WsClient) (host : Host) (moment : Moment)
    (request : ActionRequestFrame) :
    (client.handleAction host moment request none).parked =
        client.parked.insert request.id ⟨request, moment.now⟩ ∧
      (∀ id, (client.handleAction host moment request none).results id = client.results id) ∨
    (client.handleAction host moment request none).parked = client.parked ∧
      ∀ id, (client.handleAction host moment request none).results id =
        client.results id + if request.id = id then 1 else 0 := by
  cases raised : client.raises request with
  | none =>
      have answers := client.handleAction_silent host moment request raised
      exact .inr ⟨answers.parked, answers.results⟩
  | some prompt =>
      rw [client.handleAction_raised host moment request prompt raised]
      split
      · refine .inr ⟨rfl, fun id => ?_⟩
        rw [sendError_results, raisePrompt_results]
      · exact .inl ⟨rfl, client.raisePrompt_results request prompt⟩

/-- A chat push is answered while the connection goes on, and otherwise it changes nothing. -/
theorem handleChatPush_cases (client : WsClient) (moment : Moment) (request : ActionRequestFrame) :
    client.handleChatPush moment request = (client, false) ∨
      (client.handleChatPush moment request).2 = true ∧
        Answers client (client.handleChatPush moment request).1 request.id := by
  unfold handleChatPush
  split
  · exact .inr ⟨rfl, .of_sendError client client _ _ rfl rfl rfl rfl⟩
  · split
    · exact .inl rfl
    · exact .inr ⟨rfl, .of_sendActionResult client client _ _ _ _ _ rfl rfl rfl rfl⟩

/-- A delivery parks nothing, and it sends one result for the action it wakes. -/
theorem resume_cases (client : WsClient) (host : Host) (moment : Moment) :
    ((client.resume host moment).parked = client.parked ∧
      (client.resume host moment).sent = client.sent) ∨
    ∃ id action, client.parked.lookup id = some action ∧
      (client.resume host moment).parked = client.parked.erase id ∧
      ∀ other, (client.resume host moment).results other =
        client.results other + if action.frame.id = other then 1 else 0 := by
  unfold resume
  cases client.consent.notifier with
  | nil => exact .inl ⟨rfl, rfl⟩
  | cons decision rest =>
      simp only
      cases waits : client.parked.lookup decision.actionId with
      | none => exact .inl ⟨rfl, rfl⟩
      | some action =>
          refine .inr ⟨decision.actionId, action, waits, ?_, ?_⟩
          · exact (handleAction_decided_kept _ host moment action.frame decision.answer).2
          · exact handleAction_decided_results _ host moment action.frame decision.answer

/-- A sweep sends nothing and parks nothing. -/
theorem sweepExpiredParked_kept (client : WsClient) (moment : Moment) :
    (client.sweepExpiredParked moment).sent = client.sent ∧
      ∀ id action, (client.sweepExpiredParked moment).parked.lookup id = some action →
        client.parked.lookup id = some action := by
  unfold sweepExpiredParked
  generalize client.expiredIds moment = ids
  induction ids generalizing client with
  | nil => exact ⟨rfl, fun _ _ held => held⟩
  | cons gone rest ih =>
      obtain ⟨sent, fewer⟩ := ih (client.dropParked gone)
      refine ⟨sent, fun id action held => ?_⟩
      have kept := fewer id action held
      unfold dropParked at kept
      by_cases same : id = gone
      · subst same
        simp at kept
      · simpa [same] using kept

end WsClient

/-- The request in an input. -/
def Input.requested : Input → Option ActionRequestFrame
  | .request _ frame => some frame
  | .push _ frame => some frame
  | _ => none

namespace WsClient

/-- Each parked action is kept under its own id and has no result yet, no action has two results,
and nothing is known of an id that was not received. -/
structure Kept (ids : List String) (client : WsClient) : Prop where
  unseen : ∀ id, id ∉ ids → client.results id = 0 ∧ client.rendezvous.Unused id
  named : ∀ id action, client.parked.lookup id = some action → action.frame.id = id
  unanswered : ∀ id, (client.parked.lookup id).isSome → client.results id = 0
  once : ∀ id, client.results id ≤ 1

theorem Kept.start (gate : CapabilityGate) (checkpoints : Option CheckpointStore)
    (fs : FileSystem) : Kept [] (.start gate checkpoints fs) where
  unseen _ _ := ⟨rfl, rfl, rfl, rfl⟩
  named _ _ held := nomatch held
  unanswered _ held := nomatch held
  once _ := Nat.zero_le _

/-- An id that an input does not request stays unused. -/
theorem take_unused (client : WsClient) (host : Host) (input : Input) (id : String)
    (unused : client.rendezvous.Unused id)
    (other : ∀ request, input.requested = some request → request.id ≠ id) :
    (client.take host input).rendezvous.Unused id := by
  rw [take_rendezvous]
  have unnamed : ∀ action ∈ client.actions input, action.key ≠ some id := by
    intro action member
    cases input with
    | request moment request =>
        have different := other request rfl
        simp only [actions] at member
        split at member
        · split at member <;> simp at member <;> subst member <;>
            simpa [Rendezvous.Action.key] using different
        · simp at member
    | push _ _ => simp [actions] at member
    | answer _ _ => simp [actions] at member; subst member; simp [Rendezvous.Action.key]
    | deliver _ => simp [actions] at member; subst member; simp [Rendezvous.Action.key]
    | sweep moment =>
        simp only [actions, List.mem_map] at member
        obtain ⟨gone, -, rfl⟩ := member
        simp [Rendezvous.Action.key]
    | scopes _ => simp [actions] at member
  generalize client.actions input = performed at unnamed
  generalize client.rendezvous = state at unused
  induction performed generalizing state with
  | nil => exact unused
  | cons action rest ih =>
      exact ih (fun later member => unnamed later (List.mem_cons_of_mem _ member)) _
        (unused.step action (unnamed action (List.mem_cons_self ..)))

/-- What an input does to the parked actions and to the results. -/
inductive Takes (client : WsClient) : Input → WsClient → Prop where
  | quiet {input : Input} {after : WsClient} (unasked : input.requested = none)
      (parked : after.parked = client.parked)
      (results : ∀ id, after.results id = client.results id) : Takes client input after
  | sweeps {moment : Moment} {after : WsClient}
      (fewer : ∀ id action, after.parked.lookup id = some action →
        client.parked.lookup id = some action)
      (timely : client.expiredIds moment = [] → after.parked = client.parked)
      (results : ∀ id, after.results id = client.results id) : Takes client (.sweep moment) after
  | lost {moment : Moment} {request : ActionRequestFrame} {after : WsClient}
      (ends : (client.handleChatPush moment request).2 = false)
      (parked : after.parked = client.parked)
      (results : ∀ id, after.results id = client.results id) :
      Takes client (.push moment request) after
  | answers {input : Input} {after : WsClient} (request : ActionRequestFrame)
      (own : input.requested = some request) (parked : after.parked = client.parked)
      (counts : ∀ id, after.results id =
        client.results id + if request.id = id then 1 else 0) : Takes client input after
  | parks {moment : Moment} {request : ActionRequestFrame} {after : WsClient}
      (parked : after.parked = client.parked.insert request.id ⟨request, moment.now⟩)
      (results : ∀ id, after.results id = client.results id) :
      Takes client (.request moment request) after
  | wakes {moment : Moment} {after : WsClient} (own : String) (action : ParkedAction)
      (waits : client.parked.lookup own = some action)
      (parked : after.parked = client.parked.erase own)
      (counts : ∀ id, after.results id =
        client.results id + if action.frame.id = id then 1 else 0) :
      Takes client (.deliver moment) after

theorem take_takes (client : WsClient) (host : Host) (input : Input) :
    Takes client input (client.take host input) := by
  cases input with
  | request moment request =>
      rcases client.handleAction_new host moment request with ⟨parked, same⟩ | ⟨parked, counts⟩
      · exact .parks parked same
      · exact .answers request rfl parked counts
  | push moment request =>
      rcases client.handleChatPush_cases moment request with lost | ⟨-, answers⟩
      · exact .lost (congrArg Prod.snd lost) (congrArg (·.1.parked) lost)
          fun id => congrArg (·.1.results id) lost
      · exact .answers request rfl answers.parked answers.results
  | answer actionId answer => exact .quiet rfl rfl fun _ => rfl
  | scopes scopes => exact .quiet rfl rfl fun _ => rfl
  | sweep moment =>
      obtain ⟨sent, fewer⟩ := client.sweepExpiredParked_kept moment
      refine .sweeps fewer (fun none => ?_) (results_congr sent)
      simp [WsClient.take, sweepExpiredParked, none]
  | deliver moment =>
      rcases client.resume_cases host moment with
        ⟨parked, sent⟩ | ⟨own, action, waits, parked, counts⟩
      · exact .quiet rfl parked (results_congr sent)
      · exact .wakes own action waits parked counts

/-- The received ids after an input. -/
def receivedWith (ids : List String) (input : Input) : List String :=
  ids ++ (input.requested.map ActionRequestFrame.id).toList

section Accounts

variable {ids more : List String} {client after : WsClient}

/-- Nothing is known of an id that was not received. -/
theorem Kept.unknown (kept : Kept ids client) (id : String) (unseen : id ∉ ids) :
    client.parked.lookup id = none := by
  have absent := (kept.unseen id unseen).2.2.2
  simpa only [rendezvous, Option.map_eq_none_iff] using absent

theorem Kept.fewer (kept : Kept ids client) (inside : ids ⊆ more)
    (unused : ∀ id, id ∉ more → after.rendezvous.Unused id)
    (fewer : ∀ id action, after.parked.lookup id = some action →
      client.parked.lookup id = some action)
    (same : ∀ id, after.results id = client.results id) : Kept more after := by
  refine ⟨fun id unseen => ⟨?_, unused id unseen⟩, ?_, ?_, ?_⟩
  · rw [same, (kept.unseen id fun seen => unseen (inside seen)).1]
  · exact fun id action held => kept.named id action (fewer id action held)
  · intro id held
    obtain ⟨action, held⟩ := Option.isSome_iff_exists.mp held
    rw [same, kept.unanswered id (by simp [fewer id action held])]
  · exact fun id => (same id).trans_le (kept.once id)

/-- A new action gets its one result. -/
theorem Kept.answers (kept : Kept ids client) (inside : ids ⊆ more)
    (unused : ∀ id, id ∉ more → after.rendezvous.Unused id) (own : String) (fresh : own ∉ ids)
    (received : own ∈ more) (parked : after.parked = client.parked)
    (counts : ∀ id, after.results id = client.results id + if own = id then 1 else 0) :
    Kept more after := by
  refine ⟨fun id unseen => ⟨?_, unused id unseen⟩, ?_, ?_, ?_⟩
  · have different : own ≠ id := fun same => unseen (same ▸ received)
    rw [counts, if_neg different, (kept.unseen id fun seen => unseen (inside seen)).1]
  · rw [parked]
    exact kept.named
  · intro id held
    rw [parked] at held
    have different : own ≠ id := by
      rintro rfl
      simp [kept.unknown own fresh] at held
    rw [counts, if_neg different, kept.unanswered id held]
  · intro id
    rw [counts]
    split
    · rename_i same
      rw [← same, (kept.unseen own fresh).1]
    · exact kept.once id

/-- A new action waits without a result. -/
theorem Kept.parks (kept : Kept ids client) (inside : ids ⊆ more)
    (unused : ∀ id, id ∉ more → after.rendezvous.Unused id) (action : ParkedAction)
    (fresh : action.frame.id ∉ ids)
    (parked : after.parked = client.parked.insert action.frame.id action)
    (same : ∀ id, after.results id = client.results id) : Kept more after := by
  refine ⟨fun id unseen => ⟨?_, unused id unseen⟩, ?_, ?_, ?_⟩
  · exact (same id).trans (kept.unseen id fun seen => unseen (inside seen)).1
  · intro id other waits
    by_cases own : id = action.frame.id
    · rw [parked, own, AList.lookup_insert] at waits
      rw [← Option.some.inj waits, own]
    · rw [parked, AList.lookup_insert_ne own] at waits
      exact kept.named id other waits
  · intro id waits
    by_cases own : id = action.frame.id
    · rw [same, own, (kept.unseen _ fresh).1]
    · rw [parked, AList.lookup_insert_ne own] at waits
      rw [same, kept.unanswered id waits]
  · exact fun id => (same id).trans_le (kept.once id)

/-- A waiting action wakes and gets its one result. -/
theorem Kept.wakes (kept : Kept ids client) (inside : ids ⊆ more)
    (unused : ∀ id, id ∉ more → after.rendezvous.Unused id) (own : String)
    (waits : (client.parked.lookup own).isSome) (parked : after.parked = client.parked.erase own)
    (counts : ∀ id, after.results id = client.results id + if own = id then 1 else 0) :
    Kept more after := by
  refine ⟨fun id unseen => ⟨?_, unused id unseen⟩, ?_, ?_, ?_⟩
  · have outside : id ∉ ids := fun seen => unseen (inside seen)
    have different : own ≠ id := by
      rintro rfl
      simp [kept.unknown own outside] at waits
    rw [counts, if_neg different, (kept.unseen id outside).1]
  · intro id other later
    by_cases same : id = own
    · rw [parked, same, AList.lookup_erase] at later
      cases later
    · rw [parked, AList.lookup_erase_ne same] at later
      exact kept.named id other later
  · intro id later
    by_cases same : id = own
    · rw [parked, same, AList.lookup_erase] at later
      cases later
    · rw [parked, AList.lookup_erase_ne same] at later
      rw [counts, if_neg (Ne.symm same), kept.unanswered id later]
  · intro id
    rw [counts]
    split
    · rename_i same
      rw [← same, kept.unanswered own waits]
    · exact kept.once id

end Accounts

/-- An input under a new id keeps the accounts. -/
theorem Kept.take {ids : List String} {client : WsClient} (kept : Kept ids client) (host : Host)
    (input : Input) (fresh : ∀ request, input.requested = some request → request.id ∉ ids) :
    Kept (receivedWith ids input) (client.take host input) := by
  have inside : ids ⊆ receivedWith ids input := List.subset_append_left _ _
  have unused : ∀ id, id ∉ receivedWith ids input →
      (client.take host input).rendezvous.Unused id := by
    intro id unseen
    refine client.take_unused host input id (kept.unseen id fun seen => unseen (inside seen)).2 ?_
    intro request own same
    exact unseen (by simp [receivedWith, own, same])
  have takes := client.take_takes host input
  generalize client.take host input = after at takes unused
  cases takes with
  | quiet _ parked same =>
      exact kept.fewer inside unused (fun _ _ held => by rwa [parked] at held) same
  | sweeps fewer _ same => exact kept.fewer inside unused fewer same
  | lost _ parked same =>
      exact kept.fewer inside unused (fun _ _ held => by rwa [parked] at held) same
  | answers request own parked counts =>
      exact kept.answers inside unused request.id (fresh request own)
        (by simp [receivedWith, own]) parked counts
  | @parks moment request _ parked same =>
      exact kept.parks inside unused ⟨request, moment.now⟩ (fresh request rfl) parked same
  | wakes own action waits parked counts =>
      rw [kept.named own action waits] at counts
      exact kept.wakes inside unused own (by simp [waits]) parked counts

/-- Every received action is parked or has its result. -/
def Accounted (ids : List String) (client : WsClient) : Prop :=
  ∀ id ∈ ids, (client.parked.lookup id).isSome ∨ client.results id = 1

/-- An input that expires nothing keeps every received action accounted for. -/
theorem Accounted.take {ids : List String} {client : WsClient} (accounted : Accounted ids client)
    (kept : Kept ids client) (host : Host) (input : Input)
    (fresh : ∀ request, input.requested = some request → request.id ∉ ids)
    (timely : ∀ moment, input = .sweep moment → client.expiredIds moment = [])
    (heard : ∀ moment request, input = .push moment request →
      (client.handleChatPush moment request).2 = true) :
    Accounted (receivedWith ids input) (client.take host input) := by
  have takes := client.take_takes host input
  generalize client.take host input = after at takes
  intro id member
  cases takes with
  | quiet unasked parked same =>
      rw [parked, same]
      exact accounted id (by simpa [receivedWith, unasked] using member)
  | sweeps _ stays same =>
      rw [stays (timely _ rfl), same]
      exact accounted id (by simpa [receivedWith, Input.requested] using member)
  | lost ends _ _ =>
      rw [heard _ _ rfl] at ends
      cases ends
  | answers request own parked counts =>
      have named : id ∈ ids ∨ id = request.id := by simpa [receivedWith, own] using member
      by_cases same : request.id = id
      · right
        rw [counts, if_pos same, ← same, (kept.unseen request.id (fresh request own)).1]
      · rw [parked, counts, if_neg same]
        exact accounted id (named.resolve_right (Ne.symm same))
  | @parks moment request _ parked same =>
      have named : id ∈ ids ∨ id = request.id := by
        simpa [receivedWith, Input.requested] using member
      rw [parked, same]
      by_cases own : id = request.id
      · rw [own, AList.lookup_insert]
        exact .inl rfl
      · rw [AList.lookup_insert_ne own]
        exact accounted id (named.resolve_right own)
  | wakes own action waits parked counts =>
      have earlier : id ∈ ids := by simpa [receivedWith, Input.requested] using member
      rw [kept.named own action waits] at counts
      rw [parked, counts]
      by_cases same : own = id
      · right
        rw [if_pos same, ← same, kept.unanswered own (by simp [waits])]
      · rw [if_neg same, AList.lookup_erase_ne (Ne.symm same)]
        exact accounted id earlier

end WsClient

namespace Connection

/-- The id of the request that an event brings over a live connection. -/
def received (connection : Connection) (event : Event) : List String :=
  (((connection.input event).bind Input.requested).map ActionRequestFrame.id).toList

/-- The ids of the requests received in a run. -/
def receivedIds (host : Host) (start : Connection) (events : List Event) : List String :=
  collect (step host) received start events

/-- The received ids after an event are those before it and the one it brings. -/
theorem receivedIds_concat (host : Host) (start : Connection) (events : List Event)
    (event : Event) :
    receivedIds host start (events ++ [event]) =
      ((run (step host) start events).input event).elim (receivedIds host start events)
        (WsClient.receivedWith (receivedIds host start events)) := by
  rw [receivedIds, collect_concat, received]
  cases (run (step host) start events).input event with
  | none => simp [receivedIds]
  | some input => rfl

theorem kept_idles {ids : List String} {before after : WsClient}
    (idles : WsClient.Idles before after) (kept : WsClient.Kept ids before) :
    WsClient.Kept ids after := by
  refine ⟨fun id unseen => ?_, ?_, ?_, ?_⟩
  · rw [idles.results, idles.rendezvous]
    exact kept.unseen id unseen
  · rw [idles.parked]
    exact kept.named
  · rw [idles.parked]
    exact fun id held => (idles.results id).trans (kept.unanswered id held)
  · exact fun id => (idles.results id).trans_le (kept.once id)

/-- A received id is new in a run of distinct ids. -/
theorem fresh_of_nodup (host : Host) (start : Connection) (before : List Event) (event : Event)
    (distinct : (receivedIds host start (before ++ [event])).Nodup) (request : ActionRequestFrame)
    (own : ((run (step host) start before).input event).bind Input.requested = some request) :
    request.id ∉ receivedIds host start before := by
  rw [receivedIds, collect_concat, List.nodup_append] at distinct
  intro member
  exact distinct.2.2 request.id member request.id (by simp [received, own]) rfl

/-- The accounts are kept in every run of distinct ids. -/
theorem kept_run (host : Host) (gate : CapabilityGate) (checkpoints : Option CheckpointStore)
    (fs : FileSystem) (heartbeatIntervalMs : Nat) (events : List Event)
    (distinct : (receivedIds host (start gate checkpoints fs heartbeatIntervalMs) events).Nodup) :
    WsClient.Kept (receivedIds host (start gate checkpoints fs heartbeatIntervalMs) events)
      (clientAfter host (start gate checkpoints fs heartbeatIntervalMs) events) := by
  induction events using List.reverseRecOn with
  | nil => exact .start gate checkpoints fs
  | append_singleton events event ih =>
      have fresh := fresh_of_nodup host _ events event distinct
      rw [receivedIds, collect_concat, List.nodup_append] at distinct
      have kept := ih distinct.1
      rw [clientAfter, run_concat, receivedIds_concat]
      refine kept_idles (step_idles _ host event) ?_
      cases arrives : (run (step host) (start gate checkpoints fs heartbeatIntervalMs) events).input
          event with
      | none => exact kept
      | some input =>
          exact kept.take host input fun request own => fresh request (by simp [arrives, own])

/-- A live connection was live before, unless it was just made. -/
theorem live_before (connection : Connection) (host : Host) (event : Event)
    (same : ∀ scopes interval, event ≠ .connected scopes interval)
    (live : (connection.step host event).live = true) : connection.live = true := by
  cases held : connection.live with
  | true => rfl
  | false =>
      cases event with
      | connected scopes interval => exact absurd rfl (same scopes interval)
      | frame _ _ => simp [step, held] at live
      | deliver _ => simp [step, held] at live
      | tick _ => simp [step, held] at live
      | localAnswer _ _ => simp [step, held] at live
      | machine _ => simp [step, held] at live
      | closed => simp [step] at live

/-- A chat push that leaves the connection live was answered. -/
theorem push_heard (connection : Connection) (host : Host) (event : Event) (moment : Moment)
    (request : ActionRequestFrame) (arrives : connection.input event = some (.push moment request))
    (live : (connection.step host event).live = true) :
    (connection.client.handleChatPush moment request).2 = true := by
  obtain ⟨rfl, held, push⟩ := (connection.input_push event moment request).mp arrives
  simpa [step, held, receive, WsClient.handleFrame, push] using live

/-- An event sweeps nothing when no parked action has expired at its time. -/
def SweepsNothing (connection : Connection) (event : Event) : Prop :=
  ∀ moment, connection.input event = some (.sweep moment) →
    connection.client.expiredIds moment = []

/-- Every received action stays accounted for over one live connection whose sweeps expire nothing. -/
theorem accounted_run (host : Host) (gate : CapabilityGate) (checkpoints : Option CheckpointStore)
    (fs : FileSystem) (heartbeatIntervalMs : Nat) (events : List Event)
    (distinct : (receivedIds host (start gate checkpoints fs heartbeatIntervalMs) events).Nodup)
    (one : ∀ scopes interval, Event.connected scopes interval ∉ events)
    (live : (run (step host) (start gate checkpoints fs heartbeatIntervalMs) events).live = true)
    (timely : Along host (start gate checkpoints fs heartbeatIntervalMs) SweepsNothing events) :
    WsClient.Accounted (receivedIds host (start gate checkpoints fs heartbeatIntervalMs) events)
      (clientAfter host (start gate checkpoints fs heartbeatIntervalMs) events) := by
  induction events using List.reverseRecOn with
  | nil =>
      intro id member
      simp [receivedIds, collect] at member
  | append_singleton events event ih =>
      have fresh := fresh_of_nodup host _ events event distinct
      rw [run_concat] at live
      rw [receivedIds, collect_concat, List.nodup_append] at distinct
      have same : ∀ scopes interval, event ≠ .connected scopes interval := by
        rintro scopes interval rfl
        exact one scopes interval (by simp)
      have before := live_before _ host event same live
      have kept := kept_run host gate checkpoints fs heartbeatIntervalMs events distinct.1
      have accounted := ih distinct.1
        (fun scopes interval inside => one scopes interval (List.mem_append_left _ inside)) before
        timely.front
      have now := timely.last
      rw [clientAfter, run_concat, receivedIds_concat]
      intro id member
      have idles := step_idles (run (step host)
        (start gate checkpoints fs heartbeatIntervalMs) events) host event
      rw [idles.parked, idles.results]
      unfold SweepsNothing at now
      cases arrives : (run (step host) (start gate checkpoints fs heartbeatIntervalMs)
          events).input event with
      | none =>
          rw [arrives] at member
          exact accounted id member
      | some input =>
          rw [arrives] at member
          refine accounted.take kept host input (fun request own => fresh request
            (by simp [arrives, own])) ?_ ?_ id member
          · rintro moment rfl
            exact now moment arrives
          · rintro moment request rfl
            exact push_heard _ host event moment request arrives live

/-- Over one live connection in which no sweep finds an expired action, every received action is
parked without a result, or it is not parked and has exactly one result. -/
theorem action_accounted (host : Host) (gate : CapabilityGate)
    (checkpoints : Option CheckpointStore) (fs : FileSystem) (heartbeatIntervalMs : Nat)
    (events : List Event)
    (distinct : (receivedIds host (start gate checkpoints fs heartbeatIntervalMs) events).Nodup)
    (one : ∀ scopes interval, Event.connected scopes interval ∉ events)
    (live : (run (step host) (start gate checkpoints fs heartbeatIntervalMs) events).live = true)
    (timely : Along host (start gate checkpoints fs heartbeatIntervalMs) SweepsNothing events)
    (id : String)
    (member : id ∈ receivedIds host (start gate checkpoints fs heartbeatIntervalMs) events) :
    ((clientAfter host (start gate checkpoints fs heartbeatIntervalMs) events).parked.lookup
        id).isSome ∧
      (clientAfter host (start gate checkpoints fs heartbeatIntervalMs) events).results id = 0 ∨
    (clientAfter host (start gate checkpoints fs heartbeatIntervalMs) events).parked.lookup
        id = none ∧
      (clientAfter host (start gate checkpoints fs heartbeatIntervalMs) events).results id = 1 := by
  have kept := kept_run host gate checkpoints fs heartbeatIntervalMs events distinct
  have accounted := accounted_run host gate checkpoints fs heartbeatIntervalMs events distinct one
    live timely
  rcases accounted id member with waits | done
  · exact .inl ⟨waits, kept.unanswered id waits⟩
  · refine .inr ⟨?_, done⟩
    by_contra waits
    have none_yet := kept.unanswered id (Option.isSome_iff_ne_none.mpr waits)
    rw [done] at none_yet
    cases none_yet

/-- The read outside the allowed directory waits without a result. -/
theorem action_accounted_read :
    ((clientAfter .quiet askedStart [.frame (.quiet 1) (.actionRequest askedRead)]).parked.lookup
        "1").isSome ∧
      (clientAfter .quiet askedStart [.frame (.quiet 1) (.actionRequest askedRead)]).results
        "1" = 0 ∨
    (clientAfter .quiet askedStart [.frame (.quiet 1) (.actionRequest askedRead)]).parked.lookup
        "1" = none ∧
      (clientAfter .quiet askedStart [.frame (.quiet 1) (.actionRequest askedRead)]).results
        "1" = 1 := by
  refine action_accounted .quiet _ none .empty 30000 _ (by decide) (by simp)
    (by decide) (.cons ?_ (.nil _)) "1" (by decide)
  intro moment arrives
  simp at arrives

/-- The sweep takes the waiting read away, and no result is sent for it. -/
theorem action_lost :
    ¬ ∀ (host : Host) (gate : CapabilityGate) (checkpoints : Option CheckpointStore)
      (fs : FileSystem) (heartbeatIntervalMs : Nat) (events : List Event),
      (receivedIds host (start gate checkpoints fs heartbeatIntervalMs) events).Nodup →
      (∀ scopes interval, Event.connected scopes interval ∉ events) →
      (run (step host) (start gate checkpoints fs heartbeatIntervalMs) events).live = true →
      ∀ id ∈ receivedIds host (start gate checkpoints fs heartbeatIntervalMs) events,
        ((clientAfter host (start gate checkpoints fs heartbeatIntervalMs) events).parked.lookup
            id).isSome ∧
          (clientAfter host (start gate checkpoints fs heartbeatIntervalMs) events).results
            id = 0 ∨
        (clientAfter host (start gate checkpoints fs heartbeatIntervalMs) events).parked.lookup
            id = none ∧
          (clientAfter host (start gate checkpoints fs heartbeatIntervalMs) events).results
            id = 1 := by
  intro claim
  have lost := claim .quiet (.ofScopes ⟨["desktop.fs.read", "desktop.fs.write"], ["/w"]⟩) none
    .empty 30000 [.frame (.quiet 1) (.actionRequest askedRead), .tick (.quiet 200000)]
    (by decide) (by simp) (by decide) "1" (by decide)
  have state : ((clientAfter .quiet askedStart [.frame (.quiet 1) (.actionRequest askedRead),
        .tick (.quiet 200000)]).parked.lookup "1").isSome = false ∧
      (clientAfter .quiet askedStart [.frame (.quiet 1) (.actionRequest askedRead),
        .tick (.quiet 200000)]).results "1" = 0 := by
    decide
  rcases lost with ⟨waits, -⟩ | ⟨-, done⟩
  · exact absurd (state.1.symm.trans waits) (by decide)
  · exact absurd (state.2.symm.trans done) (by decide)

end Connection

end Daemon
