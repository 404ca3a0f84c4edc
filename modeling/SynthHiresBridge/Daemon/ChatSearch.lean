import SynthHiresBridge.Data.Like
import SynthHiresBridge.Daemon.ChatStore

namespace Daemon

structure StoredConversation where
  id : String
  title : Option String
  workspaceRef : Option String
  model : Option String
  provider : Option String
  isPinned : Bool
  updatedAt : Int
  deriving DecidableEq

def ConversationRow.toStored (row : ConversationRow) (id : String) : StoredConversation where
  id := id
  title := row.title
  workspaceRef := row.workspaceRef
  model := row.model
  provider := row.provider
  isPinned := row.isPinned
  updatedAt := row.updatedAt

/-- A search fails when it binds its variables or when it collects its rows. -/
inductive SearchError where
  | search
  | collectSearch
  deriving DecidableEq

/-- `ORDER BY updated_at DESC` says nothing about the order of equal stamps. -/
structure Sorter where
  sort : List StoredConversation → List StoredConversation
  perm : ∀ rows, (sort rows).Perm rows
  newest : ∀ rows, (sort rows).Pairwise fun first second => second.updatedAt ≤ first.updatedAt

namespace Sorter

def newer (first second : StoredConversation) : Prop :=
  second.updatedAt ≤ first.updatedAt

instance : DecidableRel newer := fun _ _ => inferInstanceAs (Decidable (_ ≤ _))

instance : Std.Total newer := ⟨fun first second => le_total second.updatedAt first.updatedAt⟩

instance : IsTrans StoredConversation newer := ⟨fun _ _ _ one two => le_trans two one⟩

/-- A sorter that keeps the order of equal stamps. -/
def stable : Sorter where
  sort rows := rows.insertionSort newer
  perm := List.perm_insertionSort newer
  newest := List.pairwise_insertionSort newer

/-- A sorter that gives one list for some rows. -/
def choose {rows list : List StoredConversation} (perm : list.Perm rows)
    (newest : list.Pairwise newer) : Sorter where
  sort other := if other = rows then list else stable.sort other
  perm other := by
    split
    · rename_i same
      exact same ▸ perm
    · exact stable.perm other
  newest other := by
    split
    · exact newest
    · exact stable.newest other

end Sorter

/-- A variable that is bound has at most this many bytes. -/
@[irreducible] def maxVariableLength : Nat := 1000000000

/-- `LIKE` takes a pattern of at most this many bytes. -/
@[irreducible] def maxPatternLength : Nat := 50000

/-- `LIMIT` has no bound if its number is negative. -/
def limitRows {Row : Type} (limit : Int) (rows : List Row) : List Row :=
  if limit < 0 then rows else rows.take limit.toNat

/-- The query can be anywhere in a text. -/
def patternOf (query : String) : String :=
  "%" ++ query ++ "%"

def patternBytes (query : String) : Nat :=
  (Text.encode (patternOf query)).length

namespace ChatStore

/-- The rows of the messages that a conversation has. -/
def messagesOf (store : ChatStore) (id : String) : List MessageRow :=
  (store.messages.entries.map Sigma.snd).filter fun row => row.conversationId == id

/-- A conversation without messages is joined with nothing. -/
def partnersOf (store : ChatStore) (id : String) : List (Option MessageRow) :=
  match store.messagesOf id with
  | [] => [none]
  | rows => rows.map some

/-- A left join repeats a conversation for each of its messages, and it keeps one without any. -/
def joined (store : ChatStore) : List (StoredConversation × Option MessageRow) :=
  store.conversations.entries.flatMap fun entry =>
    (store.partnersOf entry.1).map fun message => (entry.2.toStored entry.1, message)

/-- The condition of a joined row, in which a comparison with a missing text does not hold. -/
def hits (pattern : String) (row : StoredConversation × Option MessageRow) : Bool :=
  row.1.title.any (Text.like pattern) || row.2.any fun message => Text.like pattern message.content

/-- `SELECT DISTINCT` drops the repetitions that the join makes. -/
def matching (store : ChatStore) (pattern : String) : List StoredConversation :=
  ((store.joined.filter (hits pattern)).map Prod.fst).dedup

/-- A limit of zero reads no row, so the length of the pattern does not matter then. -/
def searchConversations (sorter : Sorter) (store : ChatStore) (query : String) (limit : UInt64) :
    Except SearchError (List StoredConversation) :=
  if maxVariableLength < patternBytes query then .error .search
  else if castI64 limit ≠ 0 ∧ store.joined ≠ [] ∧ maxPatternLength < patternBytes query then
    .error .collectSearch
  else .ok (limitRows (castI64 limit) (sorter.sort (store.matching (patternOf query))))

end ChatStore

end Daemon
