import SynthHiresBridge.Daemon.ChatPush
import SynthHiresBridge.Proof.ChatSnapshot

namespace Daemon

open Json

/-- A list is read item by item. -/
theorem parseEntries_cons {α : Type} (host : Host) (kind name : String) (read : Value → Option α)
    (item : Value) (rest : List Value) :
    parseEntries host kind name read (item :: rest) =
      (read item).elim
        (.error ("invalid " ++ kind ++ " entry: " ++ host.paramsMessage name item))
        fun entry => (parseEntries host kind name read rest).map (entry :: ·) := by
  rw [parseEntries, List.mapM_cons]
  cases read item with
  | none => rfl
  | some entry =>
      show (parseEntries host kind name read rest >>= fun others => pure (entry :: others)) = _
      cases parseEntries host kind name read rest <;> rfl

/-- A list that is read in full has one entry for each item. -/
theorem parseEntries_ok {α : Type} {host : Host} {kind name : String} {read : Value → Option α}
    {items : List Value} {entries : List α}
    (parsed : parseEntries host kind name read items = .ok entries) :
    items.map read = entries.map some := by
  induction items generalizing entries with
  | nil =>
      cases parsed
      rfl
  | cons item rest ih =>
      rw [parseEntries_cons] at parsed
      cases fits : read item with
      | none =>
          rw [fits] at parsed
          cases parsed
      | some entry =>
          rw [fits, Option.elim_some] at parsed
          cases tail : parseEntries host kind name read rest with
          | error reason =>
              rw [tail] at parsed
              cases parsed
          | ok others =>
              rw [tail] at parsed
              cases parsed
              rw [List.map_cons, fits, ih tail, List.map_cons]

/-- The entries of a push, read from its three lists. -/
def pushEntries (params : Value) : List (Option Offer) :=
  ((arrayField params "conversations").getD []).map
      (fun item => (ChatSyncConversation.ofValue item).map .conversation) ++
    (((arrayField params "artifacts").getD []).map
        (fun item => (ChatSyncArtifact.ofValue item).map .artifact) ++
      ((arrayField params "projects").getD []).map
        (fun item => (ChatSyncProject.ofValue item).map .project))

/-- A push whose lists are read in full has their entries. -/
theorem pushEntries_eq {host : Host} {params : Value} {conversations : List ChatSyncConversation}
    {extra : ChatSyncExtra} (parsed : parseChatPushParams host params = .ok conversations)
    (more : parseChatPushExtra host params = .ok extra) :
    pushEntries params = (conversations.map Offer.conversation ++
      (extra.artifacts.map Offer.artifact ++ extra.projects.map Offer.project)).map some := by
  have first : ((arrayField params "conversations").getD []).map ChatSyncConversation.ofValue =
      conversations.map some := by
    unfold parseChatPushParams at parsed
    cases listed : arrayField params "conversations" with
    | none =>
        rw [listed] at parsed
        cases parsed
    | some items =>
        rw [listed] at parsed
        exact parseEntries_ok parsed
  unfold parseChatPushExtra at more
  cases arts : parseEntries host "artifact" "ChatSyncArtifact" ChatSyncArtifact.ofValue
      ((arrayField params "artifacts").getD []) with
  | error reason =>
      rw [arts] at more
      cases more
  | ok artifacts =>
      cases projs : parseEntries host "project" "ChatSyncProject" ChatSyncProject.ofValue
          ((arrayField params "projects").getD []) with
      | error reason =>
          rw [arts, projs] at more
          cases more
      | ok projects =>
          rw [arts, projs] at more
          cases more
          have second := congrArg (List.map (Option.map Offer.artifact)) (parseEntries_ok arts)
          have third := congrArg (List.map (Option.map Offer.project)) (parseEntries_ok projs)
          have head := congrArg (List.map (Option.map Offer.conversation)) first
          simp only [List.map_map] at head second third
          simp only [pushEntries, List.map_append, List.map_map]
          exact congrArg₂ _ head (congrArg₂ _ second third)

namespace PushState

/-- Conversations that are all accepted were each offered once. -/
theorem upsertConversations_offered {clock : Nat → UInt64} {state stored : PushState}
    {conversations : List ChatSyncConversation} {saved : Nat}
    (ran : state.upsertConversations clock conversations = (.ok saved, stored)) :
    stored.offered = state.offered ++ conversations.map .conversation := by
  induction conversations generalizing state saved with
  | nil =>
      cases ran
      simp
  | cons conv rest ih =>
      unfold upsertConversations at ran
      cases one : state.upsertConversation (clock state.offered.length) conv with
      | mk result next =>
          have logged : next.offered = state.offered ++ [.conversation conv] :=
            congrArg (fun ran => ran.2.offered) one.symm
          rw [one] at ran
          cases result with
          | error error => cases (Prod.mk.inj ran).1
          | ok count =>
              cases others : next.upsertConversations clock rest with
              | mk result last =>
                  simp only [others] at ran
                  cases result with
                  | error error => cases (Prod.mk.inj ran).1
                  | ok more =>
                      obtain rfl := (Prod.mk.inj ran).2
                      rw [ih others, logged]
                      simp

/-- A step that offers one entry offers a list of them in turn. -/
theorem foldl_offered {α : Type} (step : PushState → α → PushState) (offer : α → Offer)
    (one : ∀ state entry, (step state entry).offered = state.offered ++ [offer entry])
    (entries : List α) (state : PushState) :
    (entries.foldl step state).offered = state.offered ++ entries.map offer := by
  induction entries generalizing state with
  | nil => simp
  | cons entry rest ih =>
      rw [List.foldl_cons, ih, one]
      simp

theorem upsertExtra_offered (state : PushState) (extra : ChatSyncExtra) :
    (state.upsertExtra extra).offered =
      state.offered ++ (extra.artifacts.map .artifact ++ extra.projects.map .project) := by
  rw [upsertExtra, foldl_offered upsertProject .project fun _ _ => rfl,
    foldl_offered upsertArtifact .artifact fun _ _ => rfl, List.append_assoc]

end PushState

/-- A client that sent one result did not send another one instead. -/
theorem WsClient.sendActionResult_inj {client : WsClient} {actionId : String} {ok other : Bool}
    {error more : Option String} {durationMs elapsed : Nat}
    (same : client.sendActionResult actionId ok none error durationMs =
      client.sendActionResult actionId other none more elapsed) : ok = other := by
  have frames := List.append_cancel_left (congrArg WsClient.sent same)
  simp only [List.cons.injEq, SentFrame.actionResult.injEq, ActionResultFrame.mk.injEq] at frames
  exact frames.1.2.2.1

namespace PushEnd

/-- The push is answered with a result that is ok. -/
def Accepted (final : PushEnd) (client : WsClient) (actionId : String) : Prop :=
  ∃ durationMs, final.client = client.sendActionResult actionId true none none durationMs

/-- The push is answered with an error. -/
def Refused (final : PushEnd) (client : WsClient) (actionId : String) : Prop :=
  ∃ error durationMs,
    final.client = client.sendActionResult actionId false none (some error) durationMs

/-- A push that is answered with an error changes no table, and one that is answered with success has
offered each of its entries once. -/
structure AllOrNothing (final : PushEnd) (client : WsClient) (store : ChatStore)
    (request : ActionRequestFrame) : Prop where
  nothing : final.Refused client request.id → final.state.store.Same store
  all : final.Accepted client request.id →
    final.state.offered.map some = pushEntries request.params

theorem Refused.not_accepted {final : PushEnd} {client : WsClient} {actionId : String}
    (refused : final.Refused client actionId) : ¬ final.Accepted client actionId := by
  rintro ⟨elapsed, answered⟩
  obtain ⟨error, spent, same⟩ := refused
  cases WsClient.sendActionResult_inj (same.symm.trans answered)

/-- A refused push is all or nothing exactly when it left the tables alone. -/
theorem Refused.atomic_iff {final : PushEnd} {client : WsClient} {store : ChatStore}
    {request : ActionRequestFrame} (refused : final.Refused client request.id) :
    final.AllOrNothing client store request ↔ final.state.store.Same store := by
  constructor
  · intro atomic
    exact atomic.nothing refused
  · intro same
    exact ⟨fun _ => same, fun accepted => absurd accepted refused.not_accepted⟩

/-- A push that ends the connection is not answered. -/
theorem lost_atomic (client : WsClient) (state : PushState) (store : ChatStore)
    (request : ActionRequestFrame) :
    (⟨client, false, state⟩ : PushEnd).AllOrNothing client store request := by
  have silent : ∀ ok error durationMs,
      client ≠ client.sendActionResult request.id ok none error durationMs := by
    intro ok error durationMs same
    have lengths := congrArg (fun client => client.sent.length) same
    simp [WsClient.sendActionResult, WsClient.send] at lengths
  constructor
  · rintro ⟨error, durationMs, answered⟩
    exact absurd answered (silent _ _ _)
  · rintro ⟨durationMs, answered⟩
    exact absurd answered (silent _ _ _)

end PushEnd

/-- The conversations of a push are stored and change the tables before an artifact or a project of
it turns out not to fit. -/
def StoresHalf (client : WsClient) (host : Host) (clock : Nat → UInt64) (store : ChatStore)
    (params : Value) : Prop :=
  client.gate.allows "sync.chat.push" = true ∧ ∃ conversations saved stored error,
    parseChatPushParams host params = .ok conversations ∧
    (PushState.start store).upsertConversations clock conversations = (.ok saved, stored) ∧
    parseChatPushExtra host params = .error error ∧ ¬ stored.store.Same store

section

variable (client : WsClient) (host : Host) (clock : Nat → UInt64) (durationMs : Nat)
  (store : ChatStore) (request : ActionRequestFrame)

/-- The loop handles a push in this way when its moment answers for the store. -/
theorem WsClient.handleChatPush_eq : ∃ answer : Except String (Bool × Option String × Nat),
    ∀ moment : Moment, moment.chatPush request.params = answer →
      let final := Daemon.handleChatPush client host clock durationMs store request
      client.handleChatPush moment request = (final.client, final.goesOn) := by
  unfold WsClient.handleChatPush Daemon.handleChatPush
  cases client.gate.allows "sync.chat.push" with
  | false => exact ⟨.error "", fun moment _ => rfl⟩
  | true =>
      cases parseChatPushParams host request.params with
      | error reason =>
          refine ⟨.ok (false, some ("bad_params: " ++ reason), durationMs), fun moment same => ?_⟩
          simp [same]
      | ok conversations =>
          cases ran : (PushState.start store).upsertConversations clock conversations with
          | mk result stored =>
              cases result with
              | error error =>
                  refine ⟨.error "store_error", fun moment same => ?_⟩
                  simp [same, ran]
              | ok saved =>
                  cases parseChatPushExtra host request.params with
                  | error reason =>
                      refine ⟨.ok (false, some ("bad_params: " ++ reason), 0),
                        fun moment same => ?_⟩
                      simp [same, ran, WsClient.sendError]
                  | ok extra =>
                      refine ⟨.ok (true, none, durationMs), fun moment same => ?_⟩
                      simp [same, ran]

end

/-- A push with one conversation and an artifact that has no id. -/
def halfPush : ActionRequestFrame :=
  ⟨1, "1", "sync.chat.push", .object [("conversations", .array [.object [("id", .string "c")]]),
    ("artifacts", .array [.object []])], none, false⟩

end Daemon
