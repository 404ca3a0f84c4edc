import SynthHiresBridge.Daemon.ChatStore
import SynthHiresBridge.Daemon.WsLoop

namespace Daemon

open Json

/-- A push offers one entry after the other to the store. -/
inductive Offer where
  | conversation (conv : ChatSyncConversation)
  | artifact (artifact : ChatSyncArtifact)
  | project (project : ChatSyncProject)

/-- A push keeps the store and the entries that it has offered. -/
structure PushState where
  store : ChatStore
  offered : List Offer

namespace PushState

def start (store : ChatStore) : PushState := ⟨store, []⟩

@[simp] theorem start_store (store : ChatStore) : (start store).store = store := rfl

def upsertConversation (state : PushState) (now : UInt64) (conv : ChatSyncConversation) :
    Except StoreError Nat × PushState :=
  let ran := state.store.upsertConversation now conv
  (ran.1, ⟨ran.2, state.offered ++ [.conversation conv]⟩)

def upsertArtifact (state : PushState) (artifact : ChatSyncArtifact) : PushState :=
  ⟨state.store.upsertArtifact artifact, state.offered ++ [.artifact artifact]⟩

def upsertProject (state : PushState) (project : ChatSyncProject) : PushState :=
  ⟨state.store.upsertProject project, state.offered ++ [.project project]⟩

/-- The conversations are stored in turn, and the first store error ends the push. The clock may move
from one entry to the next. -/
def upsertConversations (clock : Nat → UInt64) (state : PushState) :
    List ChatSyncConversation → Except StoreError Nat × PushState
  | [] => (.ok 0, state)
  | conv :: rest =>
      match state.upsertConversation (clock state.offered.length) conv with
      | (.error error, state) => (.error error, state)
      | (.ok saved, state) =>
          match state.upsertConversations clock rest with
          | (.error error, state) => (.error error, state)
          | (.ok more, state) => (.ok (saved + more), state)

def upsertExtra (state : PushState) (extra : ChatSyncExtra) : PushState :=
  extra.projects.foldl upsertProject (extra.artifacts.foldl upsertArtifact state)

end PushState

/-- A push ends with the client, the flag that says whether the connection goes on, and the store. -/
structure PushEnd where
  client : WsClient
  goesOn : Bool
  state : PushState

/-- The artifacts and projects are read after the conversations are stored. -/
def handleChatPush (client : WsClient) (host : Host) (clock : Nat → UInt64) (durationMs : Nat)
    (store : ChatStore) (request : ActionRequestFrame) : PushEnd :=
  let state := PushState.start store
  if !client.gate.allows "sync.chat.push" then
    ⟨client.sendError request.id "capability not granted: sync.chat.push", true, state⟩
  else match parseChatPushParams host request.params with
    | .error error => ⟨client.sendActionResult request.id false none (some ("bad_params: " ++ error))
        durationMs, true, state⟩
    | .ok conversations => match state.upsertConversations clock conversations with
      | (.error _, state) => ⟨client, false, state⟩
      | (.ok _, state) => match parseChatPushExtra host request.params with
        | .error error => ⟨client.sendError request.id ("bad_params: " ++ error), true, state⟩
        | .ok extra => ⟨client.sendActionResult request.id true none none durationMs, true,
            state.upsertExtra extra⟩

end Daemon
