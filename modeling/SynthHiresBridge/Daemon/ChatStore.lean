import Mathlib.Data.String.Basic
import SynthHiresBridge.Data.JsonText
import SynthHiresBridge.Data.Table
import SynthHiresBridge.Daemon.Host

namespace Daemon

open Json

structure ChatSyncMessage where
  id : String
  role : String
  content : String
  createdAt : Option UInt64
  deriving DecidableEq

structure ChatSyncConversation where
  id : String
  title : Option String
  workspaceRef : Option Value
  model : Option String
  provider : Option String
  isPinned : Option Bool
  updatedAt : Option UInt64
  messages : List ChatSyncMessage

structure ChatSyncArtifact where
  id : String
  conversationId : Option String
  title : Option String
  kind : Option String
  content : String
  updatedAt : Option UInt64
  deriving DecidableEq

structure ChatSyncProject where
  id : String
  name : Option String
  description : Option String
  updatedAt : Option UInt64
  deriving DecidableEq

/-- A field with an unsigned integer of 64 bits. -/
def readU64 (value : Value) : Option UInt64 := value.asU64.map UInt64.ofNat

def ChatSyncMessage.ofValue (value : Value) : Option ChatSyncMessage :=
  match value.fields ["id", "role", "content", "createdAt"] with
  | some [id, role, content, createdAt] => do
      return ⟨← id.bind Value.asStr, ← role.bind Value.asStr, ← content.bind Value.asStr,
        ← Value.optional readU64 createdAt⟩
  | _ => none

def ChatSyncConversation.ofValue (value : Value) : Option ChatSyncConversation :=
  match value.fields ["id", "title", "workspaceRef", "model", "provider", "isPinned", "updatedAt",
    "messages"] with
  | some [id, title, workspaceRef, model, provider, isPinned, updatedAt, messages] => do
      return ⟨← id.bind Value.asStr, ← Value.optional Value.asStr title,
        ← Value.optional some workspaceRef, ← Value.optional Value.asStr model,
        ← Value.optional Value.asStr provider, ← Value.optional Value.asBool isPinned,
        ← Value.optional readU64 updatedAt,
        ← Value.defaulted [] (Value.listOf ChatSyncMessage.ofValue) messages⟩
  | _ => none

def ChatSyncArtifact.ofValue (value : Value) : Option ChatSyncArtifact :=
  match value.fields ["id", "conversationId", "title", "kind", "content", "updatedAt"] with
  | some [id, conversationId, title, kind, content, updatedAt] => do
      return ⟨← id.bind Value.asStr, ← Value.optional Value.asStr conversationId,
        ← Value.optional Value.asStr title, ← Value.optional Value.asStr kind,
        ← Value.defaulted "" Value.asStr content, ← Value.optional readU64 updatedAt⟩
  | _ => none

def ChatSyncProject.ofValue (value : Value) : Option ChatSyncProject :=
  match value.fields ["id", "name", "description", "updatedAt"] with
  | some [id, name, description, updatedAt] => do
      return ⟨← id.bind Value.asStr, ← Value.optional Value.asStr name,
        ← Value.optional Value.asStr description, ← Value.optional readU64 updatedAt⟩
  | _ => none

/-- The entries of a list are read in turn, and the first one that does not fit is the error. -/
def parseEntries {α : Type} (host : Host) (kind name : String) (read : Value → Option α)
    (items : List Value) : Except String (List α) :=
  items.mapM fun item => match read item with
    | some entry => .ok entry
    | none => .error ("invalid " ++ kind ++ " entry: " ++ host.paramsMessage name item)

/-- The items of an array field of the parameters. -/
def arrayField (params : Value) (key : String) : Option (List Value) :=
  (params.get key).bind Value.asArray

def parseChatPushParams (host : Host) (params : Value) : Except String (List ChatSyncConversation) :=
  match arrayField params "conversations" with
  | none => .error "sync.chat.push params.conversations must be an array"
  | some items =>
      parseEntries host "conversation" "ChatSyncConversation" ChatSyncConversation.ofValue items

structure ChatSyncExtra where
  artifacts : List ChatSyncArtifact
  projects : List ChatSyncProject

/-- A missing list, and a field that is no list, is an empty one. -/
def parseChatPushExtra (host : Host) (params : Value) : Except String ChatSyncExtra := do
  let artifacts ← parseEntries host "artifact" "ChatSyncArtifact" ChatSyncArtifact.ofValue
    ((arrayField params "artifacts").getD [])
  let projects ← parseEntries host "project" "ChatSyncProject" ChatSyncProject.ofValue
    ((arrayField params "projects").getD [])
  return ⟨artifacts, projects⟩

structure ConversationRow where
  title : Option String
  workspaceRef : Option String
  model : Option String
  provider : Option String
  isPinned : Bool
  updatedAt : Int
  deriving DecidableEq

structure MessageRow where
  conversationId : String
  role : String
  content : String
  createdAt : Int
  deriving DecidableEq

structure ArtifactRow where
  conversationId : Option String
  title : Option String
  kind : Option String
  content : String
  updatedAt : Int
  deriving DecidableEq

structure ProjectRow where
  name : Option String
  description : Option String
  updatedAt : Int
  deriving DecidableEq

/-- A chat store has four tables, and each message belongs to a stored conversation. -/
structure ChatStore where
  conversations : Table String ConversationRow
  messages : Table String MessageRow
  artifacts : Table String ArtifactRow
  projects : Table String ProjectRow
  owned : ∀ id row, messages.lookup id = some row →
    (conversations.lookup row.conversationId).isSome = true

structure StoredMessage where
  id : String
  conversationId : String
  role : String
  content : String
  createdAt : Int
  deriving DecidableEq

/-- A statement binds too many variables. -/
inductive StoreError where
  | pruneMessages
  deriving DecidableEq

/-- One statement may bind this many variables. -/
def maxVariableNumber : Nat := 32766

@[irreducible] def maxContentChars : Nat := 200000

/-- The cast of an unsigned integer to the signed integer of a column. -/
@[irreducible] def castI64 (value : UInt64) : Int := (value.toNat : Int).bmod (2 ^ 64)

def normaliseContent (content : String) : String :=
  String.ofList (content.toList.take maxContentChars)

def ChatSyncConversation.toRow (conv : ChatSyncConversation) (updatedAt : Int) : ConversationRow :=
  let workspaceRef := (conv.workspaceRef.map fun value => String.ofList value.text).getD ""
  { title := some (conv.title.getD "New conversation")
    workspaceRef := if workspaceRef = "" then none else some workspaceRef
    model := some (conv.model.getD "gpt-4o")
    provider := some (conv.provider.getD "openai")
    isPinned := conv.isPinned.getD false
    updatedAt := updatedAt }

@[simp] theorem ChatSyncConversation.toRow_updatedAt (conv : ChatSyncConversation) (updatedAt : Int) :
    (conv.toRow updatedAt).updatedAt = updatedAt := rfl

def ChatSyncMessage.toRow (message : ChatSyncMessage) (conversationId : String) : MessageRow where
  conversationId := conversationId
  role := message.role
  content := normaliseContent message.content
  createdAt := castI64 (message.createdAt.getD 0)

def ChatSyncArtifact.toRow (artifact : ChatSyncArtifact) : ArtifactRow where
  conversationId := artifact.conversationId
  title := artifact.title
  kind := artifact.kind
  content := normaliseContent artifact.content
  updatedAt := castI64 (artifact.updatedAt.getD 0)

def ChatSyncProject.toRow (project : ChatSyncProject) : ProjectRow where
  name := project.name
  description := project.description
  updatedAt := castI64 (project.updatedAt.getD 0)

/-- A message that is stored already keeps its conversation. -/
def upsertMessage (conversationId : String) (messages : Table String MessageRow)
    (message : ChatSyncMessage) : Table String MessageRow :=
  let row := message.toRow conversationId
  messages.upsert message.id row fun old =>
    { old with role := row.role, content := row.content, createdAt := row.createdAt }

namespace ChatSyncConversation

def upsertMessages (conv : ChatSyncConversation) (messages : Table String MessageRow) :
    Table String MessageRow :=
  conv.messages.foldl (upsertMessage conv.id) messages

/-- The messages of the conversation that the snapshot does not list are dropped. -/
def pruneMessages (conv : ChatSyncConversation) (messages : Table String MessageRow) :
    Table String MessageRow :=
  messages.deleteWhere fun id row =>
    row.conversationId == conv.id && !(conv.messages.map ChatSyncMessage.id).contains id

/-- An empty snapshot prunes nothing. -/
def storedMessages (conv : ChatSyncConversation) (messages : Table String MessageRow) :
    Table String MessageRow :=
  if conv.messages.isEmpty then conv.upsertMessages messages
  else conv.pruneMessages (conv.upsertMessages messages)

end ChatSyncConversation

theorem upsertMessage_owner {conversationId : String} {messages : Table String MessageRow}
    {message : ChatSyncMessage} {id : String} {row : MessageRow}
    (found : (upsertMessage conversationId messages message).lookup id = some row) :
    row.conversationId = conversationId ∨
      ∃ old, messages.lookup id = some old ∧ row.conversationId = old.conversationId := by
  rw [upsertMessage, Table.lookup_upsert] at found
  split at found
  · rename_i own
    subst own
    rw [Option.some.injEq] at found
    cases held : messages.lookup message.id with
    | none =>
        rw [held] at found
        subst found
        exact .inl rfl
    | some old =>
        rw [held] at found
        subst found
        exact .inr ⟨old, rfl, rfl⟩
  · exact .inr ⟨row, found, rfl⟩

namespace ChatSyncConversation

theorem upsertMessages_owner (conv : ChatSyncConversation) {messages : Table String MessageRow}
    {id : String} {row : MessageRow} (found : (conv.upsertMessages messages).lookup id = some row) :
    row.conversationId = conv.id ∨
      ∃ old, messages.lookup id = some old ∧ row.conversationId = old.conversationId := by
  unfold upsertMessages at found
  generalize conv.messages = list at found
  induction list generalizing messages with
  | nil => exact .inr ⟨row, found, rfl⟩
  | cons message rest ih =>
      rcases ih found with own | ⟨old, held, same⟩
      · exact .inl own
      · rw [same]
        exact upsertMessage_owner held

theorem storedMessages_owner (conv : ChatSyncConversation) {messages : Table String MessageRow}
    {id : String} {row : MessageRow} (found : (conv.storedMessages messages).lookup id = some row) :
    row.conversationId = conv.id ∨
      ∃ old, messages.lookup id = some old ∧ row.conversationId = old.conversationId := by
  apply conv.upsertMessages_owner
  unfold storedMessages at found
  split at found
  · exact found
  · rw [pruneMessages, Table.lookup_deleteWhere, Option.filter_eq_some_iff] at found
    exact found.1

end ChatSyncConversation

namespace ChatStore

def empty : ChatStore := ⟨∅, ∅, ∅, ∅, fun _ _ found => by cases found⟩

/-- A snapshot writes its row and its messages in one transaction. -/
def commit (store : ChatStore) (conv : ChatSyncConversation) (updatedAt : Int) : ChatStore where
  conversations :=
    let row := conv.toRow updatedAt
    store.conversations.upsert conv.id row fun _ => row
  messages := conv.storedMessages store.messages
  artifacts := store.artifacts
  projects := store.projects
  owned id row found := by
    rw [Table.lookup_upsert]
    split
    · rfl
    · rename_i other
      rcases conv.storedMessages_owner found with own | ⟨old, held, same⟩
      · exact absurd own other
      · rw [same]
        exact store.owned id old held

/-- The stamp of a snapshot is its own or the clock. -/
def stampOf (now : UInt64) (conv : ChatSyncConversation) : Int := castI64 (conv.updatedAt.getD now)

/-- A newer row keeps a snapshot out. -/
def isStale (store : ChatStore) (now : UInt64) (conv : ChatSyncConversation) : Bool :=
  (store.conversations.lookup conv.id).any fun row => decide (stampOf now conv < row.updatedAt)

/-- The statement that prunes messages binds the conversation and every message id. -/
def fits (conv : ChatSyncConversation) : Bool :=
  conv.messages.isEmpty || decide (conv.messages.length + 1 ≤ maxVariableNumber)

/-- A stale snapshot changes nothing, and a transaction that fails is rolled back. -/
def upsertConversation (store : ChatStore) (now : UInt64) (conv : ChatSyncConversation) :
    Except StoreError Nat × ChatStore :=
  if store.isStale now conv then (.ok 0, store)
  else if fits conv then (.ok conv.messages.length, store.commit conv (stampOf now conv))
  else (.error .pruneMessages, store)

def upsertArtifact (store : ChatStore) (artifact : ChatSyncArtifact) : ChatStore :=
  { store with artifacts :=
      store.artifacts.putLatest ArtifactRow.updatedAt artifact.id artifact.toRow }

def upsertProject (store : ChatStore) (project : ChatSyncProject) : ChatStore :=
  { store with projects :=
      store.projects.putLatest ProjectRow.updatedAt project.id project.toRow }

/-- Messages come in the order of their creation, and then of their ids. -/
def messageBefore (first second : String × MessageRow) : Bool :=
  decide (first.2.createdAt < second.2.createdAt ∨
    first.2.createdAt = second.2.createdAt ∧ first.1 ≤ second.1)

def getMessages (store : ChatStore) (conversationId : String) : List StoredMessage :=
  (store.messages.select (fun _ row => row.conversationId == conversationId) messageBefore).map
    fun (id, row) => ⟨id, row.conversationId, row.role, row.content, row.createdAt⟩

end ChatStore

end Daemon
