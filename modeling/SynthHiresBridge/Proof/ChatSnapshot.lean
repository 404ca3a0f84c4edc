import SynthHiresBridge.Daemon.ChatStore

namespace Daemon

/-- The cast keeps the numbers below `2 ^ 63` and makes the others negative. -/
theorem castI64_eq (value : UInt64) :
    castI64 value = if value.toNat < 2 ^ 63 then (value.toNat : Int) else value.toNat - 2 ^ 64 := by
  have bound := value.toNat_lt
  unfold castI64
  rw [Int.bmod_def]
  split <;> split <;> omega

theorem castI64_of_lt {value : UInt64} (small : value.toNat < 2 ^ 63) :
    castI64 value = value.toNat := by
  rw [castI64_eq, if_pos small]

theorem castI64_eq_toNat_iff (value : UInt64) :
    castI64 value = value.toNat ↔ value.toNat < 2 ^ 63 := by
  rw [castI64_eq]
  split <;> omega

/-- The last message of a list with a given id. -/
def lastMessage (messages : List ChatSyncMessage) (id : String) : Option ChatSyncMessage :=
  messages.reverse.find? fun message => message.id = id

theorem lastMessage_concat (messages : List ChatSyncMessage) (last : ChatSyncMessage) (id : String) :
    lastMessage (messages ++ [last]) id =
      if last.id = id then some last else lastMessage messages id := by
  simp only [lastMessage, List.reverse_append, List.reverse_singleton, List.singleton_append,
    List.find?_cons]
  split <;> simp_all

theorem lastMessage_mem {messages : List ChatSyncMessage} {id : String} {message : ChatSyncMessage}
    (last : lastMessage messages id = some message) : message ∈ messages ∧ message.id = id := by
  constructor
  · exact List.mem_reverse.mp (List.mem_of_find?_eq_some last)
  · simpa using List.find?_some last

theorem lastMessage_isSome {messages : List ChatSyncMessage} {message : ChatSyncMessage}
    (member : message ∈ messages) : ∃ last, lastMessage messages message.id = some last := by
  rw [← Option.isSome_iff_exists, lastMessage, List.find?_isSome]
  exact ⟨message, List.mem_reverse.mpr member, by simp⟩

theorem lastMessage_eq_none_iff (messages : List ChatSyncMessage) (id : String) :
    lastMessage messages id = none ↔ (messages.map ChatSyncMessage.id).contains id = false := by
  rw [lastMessage, List.find?_eq_none]
  simp [eq_comm]

namespace ChatSyncConversation

variable (conv : ChatSyncConversation) (messages : Table String MessageRow)

/-- A message of the snapshot sets its row, which keeps the conversation it had. -/
theorem lookup_upsertMessages (id : String) : (conv.upsertMessages messages).lookup id =
    match lastMessage conv.messages id with
    | none => messages.lookup id
    | some message =>
        some (message.toRow ((messages.lookup id).elim conv.id MessageRow.conversationId)) := by
  unfold upsertMessages
  induction conv.messages using List.reverseRecOn with
  | nil => rfl
  | append_singleton list last ih =>
      rw [List.foldl_concat, upsertMessage, Table.lookup_upsert, lastMessage_concat]
      by_cases own : id = last.id
      · subst own
        simp only [if_true, ih]
        cases lastMessage list last.id with
        | none =>
            cases messages.lookup last.id with
            | none => simp only [Option.elim_none]
            | some old => simp only [Option.elim_some, ChatSyncMessage.toRow]
        | some earlier => simp only [Option.elim_some, ChatSyncMessage.toRow]
      · rw [if_neg own, if_neg (Ne.symm own), ih]

/-- The rows of the conversation are the messages of the snapshot when it lists any. -/
theorem lookup_storedMessages (id : String) : (conv.storedMessages messages).lookup id =
    match lastMessage conv.messages id with
    | none => (messages.lookup id).filter fun row =>
        conv.messages.isEmpty || row.conversationId != conv.id
    | some message =>
        some (message.toRow ((messages.lookup id).elim conv.id MessageRow.conversationId)) := by
  unfold storedMessages
  cases listed : conv.messages with
  | nil =>
      rw [List.isEmpty_nil, if_pos rfl, lookup_upsertMessages, listed]
      cases messages.lookup id <;> simp [lastMessage, Option.filter_some]
  | cons first rest =>
      rw [List.isEmpty_cons, if_neg (by simp), pruneMessages, Table.lookup_deleteWhere,
        lookup_upsertMessages, ← listed]
      cases last : lastMessage conv.messages id with
      | none =>
          have absent := (lastMessage_eq_none_iff _ _).mp last
          simp only [absent, Bool.not_false, Bool.and_true, Bool.false_or]
          rfl
      | some message =>
          have present : (conv.messages.map ChatSyncMessage.id).contains id = true := by
            rw [← Bool.not_eq_false, ← lastMessage_eq_none_iff, last]
            simp
          simp only [present, Bool.not_true, Bool.and_false, Bool.not_false, Option.filter_some,
            if_true]

end ChatSyncConversation

namespace ChatStore

/-- A row of a conversation is read back with its id. -/
def stored (id : String) (row : MessageRow) : StoredMessage :=
  ⟨id, row.conversationId, row.role, row.content, row.createdAt⟩

theorem getMessages_filter (store : ChatStore) (conversationId id : String) :
    (store.getMessages conversationId).filter (fun message => message.id = id) =
      (((store.messages.lookup id).filter fun row => row.conversationId == conversationId).map
        (stored id)).toList := by
  rw [getMessages, List.filter_map]
  show List.map _ ((store.messages.select _ _).filter fun entry => entry.1 = id) = _
  rw [Table.select_filter]
  cases (store.messages.lookup id).filter fun row => row.conversationId == conversationId <;> rfl

theorem messageBefore_total (first second : String × MessageRow) :
    messageBefore first second = true ∨ messageBefore second first = true := by
  simp only [messageBefore, decide_eq_true_eq]
  rcases lt_trichotomy first.2.createdAt second.2.createdAt with less | same | more
  · exact .inl (.inl less)
  · rcases le_total first.1 second.1 with before | after
    · exact .inl (.inr ⟨same, before⟩)
    · exact .inr (.inr ⟨same.symm, after⟩)
  · exact .inr (.inl more)

theorem messageBefore_trans (first second third : String × MessageRow)
    (one : messageBefore first second = true) (two : messageBefore second third = true) :
    messageBefore first third = true := by
  simp only [messageBefore, decide_eq_true_eq] at one two ⊢
  rcases one with less | ⟨same, before⟩
  · rcases two with later | ⟨equal, -⟩
    · exact .inl (less.trans later)
    · exact .inl (equal ▸ less)
  · rcases two with later | ⟨equal, after⟩
    · exact .inl (same ▸ later)
    · exact .inr ⟨same.trans equal, before.trans after⟩

theorem messageBefore_antisymm (first second : String × MessageRow)
    (one : messageBefore first second = true) (two : messageBefore second first = true) :
    first.1 = second.1 := by
  simp only [messageBefore, decide_eq_true_eq] at one two
  rcases one with less | ⟨same, before⟩
  · rcases two with more | ⟨equal, -⟩ <;> omega
  · rcases two with more | ⟨-, after⟩
    · omega
    · exact le_antisymm before after

/-- The messages of a conversation are those of its rows. -/
theorem getMessages_congr {one two : ChatStore} {conversationId : String}
    (same : ∀ id, ((one.messages.lookup id).filter fun row => row.conversationId == conversationId) =
      (two.messages.lookup id).filter fun row => row.conversationId == conversationId) :
    one.getMessages conversationId = two.getMessages conversationId := by
  unfold getMessages
  rw [Table.select_congr messageBefore_total messageBefore_trans messageBefore_antisymm same]

/-- No other conversation has a message of the snapshot. -/
def OwnIds (store : ChatStore) (conv : ChatSyncConversation) : Prop :=
  ∀ message ∈ conv.messages, ∀ row, store.messages.lookup message.id = some row →
    row.conversationId = conv.id

/-- A snapshot with its own message ids stores the last message of each id. -/
theorem OwnIds.lookup {store : ChatStore} {conv : ChatSyncConversation} (own : store.OwnIds conv)
    (updatedAt : Int) {id : String} {message : ChatSyncMessage}
    (last : lastMessage conv.messages id = some message) :
    (store.commit conv updatedAt).messages.lookup id = some (message.toRow conv.id) := by
  obtain ⟨member, rfl⟩ := lastMessage_mem last
  show (conv.storedMessages store.messages).lookup message.id = _
  rw [conv.lookup_storedMessages, last]
  cases held : store.messages.lookup message.id with
  | none => rfl
  | some row =>
      rw [Option.elim_some, own message member row held]

/-- A snapshot with its own message ids leaves the messages of other conversations alone. -/
theorem OwnIds.lookup_other {store : ChatStore} {conv : ChatSyncConversation}
    (own : store.OwnIds conv) (updatedAt : Int) {other : String} (apart : other ≠ conv.id)
    (id : String) :
    (((store.commit conv updatedAt).messages.lookup id).filter fun row =>
        row.conversationId == other) =
      (store.messages.lookup id).filter fun row => row.conversationId == other := by
  cases last : lastMessage conv.messages id with
  | some message =>
      rw [own.lookup updatedAt last]
      obtain ⟨member, rfl⟩ := lastMessage_mem last
      have foreign : (message.toRow conv.id).conversationId ≠ other := Ne.symm apart
      cases held : store.messages.lookup message.id with
      | none => simp [Option.filter_some, foreign]
      | some row =>
          simp [Option.filter_some, foreign, own message member row held, Ne.symm apart]
  | none =>
      show ((conv.storedMessages store.messages).lookup id).filter _ = _
      rw [conv.lookup_storedMessages, last]
      cases store.messages.lookup id with
      | none => rfl
      | some row =>
          by_cases here : row.conversationId = other
          · simp [Option.filter_some, here, apart]
          · simp [Option.filter_some, here]

/-- The messages of a conversation are exactly the last ones of a snapshot for each id, with their
content cut at the limit. -/
def Lists (store : ChatStore) (conversationId : String) (messages : List ChatSyncMessage) : Prop :=
  ∀ id, (store.getMessages conversationId).filter (fun message => message.id = id) =
    ((lastMessage messages id).map fun message => (⟨id, conversationId, message.role,
      normaliseContent message.content, (message.createdAt.getD 0).toNat⟩ : StoredMessage)).toList

/-- No other conversation changes. -/
def SparesOthers (before after : ChatStore) (conversationId : String) : Prop :=
  ∀ other, other ≠ conversationId →
    after.conversations.lookup other = before.conversations.lookup other ∧
      after.getMessages other = before.getMessages other

theorem commit_lists {store : ChatStore} {conv : ChatSyncConversation} (own : store.OwnIds conv)
    (updatedAt : Int) (listed : conv.messages ≠ []) (id : String) :
    ((store.commit conv updatedAt).getMessages conv.id).filter (fun message => message.id = id) =
      ((lastMessage conv.messages id).map fun message =>
        stored id (message.toRow conv.id)).toList := by
  rw [getMessages_filter]
  cases last : lastMessage conv.messages id with
  | some message =>
      rw [own.lookup updatedAt last]
      simp [ChatSyncMessage.toRow]
  | none =>
      show (((conv.storedMessages store.messages).lookup id).filter _ |>.map _).toList = _
      rw [conv.lookup_storedMessages, last]
      have nonempty : conv.messages.isEmpty = false := by simpa using listed
      cases store.messages.lookup id with
      | none => rfl
      | some row => simp [Option.filter_some, nonempty]

theorem commit_sparesOthers {store : ChatStore} {conv : ChatSyncConversation}
    (own : store.OwnIds conv) (updatedAt : Int) :
    SparesOthers store (store.commit conv updatedAt) conv.id := by
  intro other apart
  constructor
  · show (store.conversations.upsert conv.id _ _).lookup other = _
    rw [Table.lookup_upsert, if_neg apart]
  · exact getMessages_congr (own.lookup_other updatedAt apart)

/-- What the store holds after a snapshot was offered to it. -/
def offer (now : UInt64) (store : ChatStore) (conv : ChatSyncConversation) : ChatStore :=
  (store.upsertConversation now conv).2

theorem offer_stale {store : ChatStore} {now : UInt64} {conv : ChatSyncConversation}
    (stale : store.isStale now conv = true) : store.offer now conv = store := by
  simp [offer, upsertConversation, stale]

theorem offer_unfit {store : ChatStore} {now : UInt64} {conv : ChatSyncConversation}
    (unfit : fits conv = false) : store.offer now conv = store := by
  unfold offer upsertConversation
  split
  · rfl
  · rw [unfit, if_neg (by simp)]

theorem offer_commit {store : ChatStore} {now : UInt64} {conv : ChatSyncConversation}
    (fresh : store.isStale now conv = false) (fit : fits conv = true) :
    store.offer now conv = store.commit conv (stampOf now conv) := by
  simp [offer, upsertConversation, fresh, fit]

/-- A snapshot that is committed is stored exactly when no other conversation has one of its ids and
the creation times that it stores are below `2 ^ 63`. -/
theorem commit_owns_iff {store : ChatStore} {conv : ChatSyncConversation} (updatedAt : Int)
    (listed : conv.messages ≠ []) :
    (store.commit conv updatedAt).Lists conv.id conv.messages ∧
        SparesOthers store (store.commit conv updatedAt) conv.id ↔
      store.OwnIds conv ∧ ∀ id message, lastMessage conv.messages id = some message →
        (message.createdAt.getD 0).toNat < 2 ^ 63 := by
  constructor
  · rintro ⟨lists, -⟩
    have own : store.OwnIds conv := by
      intro message member row held
      by_contra foreign
      obtain ⟨last, found⟩ := lastMessage_isSome member
      have rows := lists message.id
      rw [getMessages_filter] at rows
      have kept : (store.commit conv updatedAt).messages.lookup message.id =
          some (last.toRow row.conversationId) := by
        show (conv.storedMessages store.messages).lookup message.id = _
        rw [conv.lookup_storedMessages, found, held]
        rfl
      rw [kept, found] at rows
      simp [ChatSyncMessage.toRow, foreign] at rows
    refine ⟨own, fun id message last => ?_⟩
    have rows := lists id
    rw [commit_lists own _ listed, last] at rows
    simp only [Option.map_some, Option.toList_some, List.cons.injEq, and_true, stored,
      StoredMessage.mk.injEq, ChatSyncMessage.toRow, true_and] at rows
    exact (castI64_eq_toNat_iff _).mp rows
  · rintro ⟨own, small⟩
    refine ⟨fun id => ?_, commit_sparesOthers own _⟩
    rw [commit_lists own _ listed]
    cases last : lastMessage conv.messages id with
    | none => rw [Option.map_none, Option.map_none]
    | some message =>
        have same := castI64_of_lt (small id message last)
        simp only [Option.map_some, stored, ChatSyncMessage.toRow, same]

/-- A fresh snapshot with messages stores exactly them and leaves the other conversations alone
exactly when it fits, no other conversation has one of its ids and the creation times that it stores
are below `2 ^ 63`, or it does not fit and its messages are stored already. -/
theorem snapshot_owns_iff (store : ChatStore) (now : UInt64) (conv : ChatSyncConversation)
    (listed : conv.messages ≠ []) (fresh : store.isStale now conv = false) :
    (store.offer now conv).Lists conv.id conv.messages ∧
        SparesOthers store (store.offer now conv) conv.id ↔
      (fits conv = true ∧ store.OwnIds conv ∧
        ∀ id message, lastMessage conv.messages id = some message →
          (message.createdAt.getD 0).toNat < 2 ^ 63) ∨
      fits conv = false ∧ store.Lists conv.id conv.messages := by
  cases fit : fits conv with
  | true =>
      rw [offer_commit fresh fit, commit_owns_iff _ listed]
      simp
  | false =>
      rw [offer_unfit fit]
      simp [SparesOthers]

/-- Two stores have the same rows. -/
structure Same (one two : ChatStore) : Prop where
  conversations : ∀ id, one.conversations.lookup id = two.conversations.lookup id
  messages : ∀ id, one.messages.lookup id = two.messages.lookup id
  artifacts : one.artifacts = two.artifacts
  projects : one.projects = two.projects

theorem isStale_iff (store : ChatStore) (now : UInt64) (conv : ChatSyncConversation) :
    store.isStale now conv = true ↔ ∃ row, store.conversations.lookup conv.id = some row ∧
      stampOf now conv < row.updatedAt := by
  simp [isStale, Option.any_eq_true]

/-- The store holds the row and the messages of a snapshot. -/
structure Holds (store : ChatStore) (conv : ChatSyncConversation) (updatedAt : Int) : Prop where
  row : store.conversations.lookup conv.id = some (conv.toRow updatedAt)
  messages : ∀ id, (store.getMessages conv.id).filter (fun message => message.id = id) =
    ((lastMessage conv.messages id).map fun message => stored id (message.toRow conv.id)).toList

/-- The store has no message of a conversation. -/
def Bare (store : ChatStore) (conversationId : String) : Prop :=
  ∀ id row, store.messages.lookup id = some row → row.conversationId ≠ conversationId

theorem Holds.lookup {store : ChatStore} {conv : ChatSyncConversation} {updatedAt : Int}
    (holds : store.Holds conv updatedAt) (id : String) :
    (store.messages.lookup id).filter (fun row => row.conversationId == conv.id) =
      (lastMessage conv.messages id).map fun message => message.toRow conv.id := by
  have rows := holds.messages id
  rw [getMessages_filter] at rows
  have injective : Function.Injective (stored id) := by
    intro one two same
    simp only [stored, StoredMessage.mk.injEq, true_and] at same
    obtain ⟨owner, role, content, created⟩ := same
    cases one
    cases two
    simp_all
  have heads := congrArg List.head? rows
  rw [Option.head?_toList, Option.head?_toList] at heads
  apply Option.map_injective injective
  rw [heads, Option.map_map]
  rfl

/-- Two stores that hold one snapshot have the same messages of its conversation. -/
theorem Holds.getMessages_eq {one two : ChatStore} {conv : ChatSyncConversation} {updatedAt : Int}
    (first : one.Holds conv updatedAt) (second : two.Holds conv updatedAt) :
    one.getMessages conv.id = two.getMessages conv.id :=
  getMessages_congr fun id => (first.lookup id).trans (second.lookup id).symm

/-- A committed snapshot is held when it has messages, or when its conversation had none. -/
theorem commit_holds {store : ChatStore} {conv : ChatSyncConversation} (own : store.OwnIds conv)
    (updatedAt : Int) (clear : conv.messages ≠ [] ∨ store.Bare conv.id) :
    (store.commit conv updatedAt).Holds conv updatedAt := by
  constructor
  · show (store.conversations.upsert conv.id _ _).lookup conv.id = _
    rw [Table.lookup_upsert, if_pos rfl]
    cases store.conversations.lookup conv.id <;> rfl
  · intro id
    by_cases listed : conv.messages = []
    · have bare := clear.resolve_left (not_not.mpr listed)
      rw [getMessages_filter]
      show (((conv.storedMessages store.messages).lookup id).filter _ |>.map _).toList = _
      rw [conv.lookup_storedMessages, listed]
      cases held : store.messages.lookup id with
      | none => rfl
      | some row => simp [lastMessage, Option.filter_some, bare id row held]
    · exact commit_lists own updatedAt listed id

/-- A snapshot that is held changes nothing when it is offered again. -/
theorem Holds.commit_same {store : ChatStore} {conv : ChatSyncConversation} {updatedAt : Int}
    (holds : store.Holds conv updatedAt) : (store.commit conv updatedAt).Same store := by
  refine ⟨fun id => ?_, fun id => ?_, rfl, rfl⟩
  · show (store.conversations.upsert conv.id _ _).lookup id = _
    rw [Table.lookup_upsert]
    split
    · rename_i own
      rw [own, holds.row]
      rfl
    · rfl
  · show (conv.storedMessages store.messages).lookup id = _
    have rows := holds.lookup id
    rw [conv.lookup_storedMessages]
    cases last : lastMessage conv.messages id with
    | some message =>
        rw [last, Option.map_some, Option.filter_eq_some_iff] at rows
        rw [rows.1, Option.elim_some]
        rfl
    | none =>
        rw [last, Option.map_none, Option.filter_eq_none_iff] at rows
        cases held : store.messages.lookup id with
        | none => rfl
        | some row =>
            have foreign : row.conversationId ≠ conv.id := by simpa using rows row held
            simp [Option.filter_some, foreign]

theorem Same.refl (store : ChatStore) : Same store store := ⟨fun _ => rfl, fun _ => rfl, rfl, rfl⟩

section Converge

variable (store : ChatStore) (now : UInt64) (older newer : ChatSyncConversation)

/-- Both orders of two snapshots end in the newer one with the same messages, and neither snapshot
changes anything again. -/
def Converges : Prop :=
  let first := (store.offer now older).offer now newer
  let second := (store.offer now newer).offer now older
  first.getMessages newer.id = second.getMessages newer.id ∧ ∀ final ∈ [first, second],
    final.Holds newer (stampOf now newer) ∧
      ∀ again ∈ [older, newer], (final.offer now again).Same final

variable {store now older newer} (same : older.id = newer.id)
  (order : stampOf now older < stampOf now newer)

include same order

/-- Once the newer snapshot is held, the older one is stale and the newer one changes nothing. -/
theorem Holds.settled {final : ChatStore} (holds : final.Holds newer (stampOf now newer)) :
    final.isStale now older = true ∧
      ∀ again ∈ [older, newer], (final.offer now again).Same final := by
  have stale : final.isStale now older = true := by
    rw [isStale_iff, same]
    exact ⟨_, holds.row, by simpa using order⟩
  refine ⟨stale, fun again either => ?_⟩
  rcases List.mem_pair.mp either with rfl | rfl
  · rw [offer_stale stale]
    exact .refl final
  · have fresh : final.isStale now again = false := by
      rw [← Bool.not_eq_true, isStale_iff]
      rintro ⟨row, held, less⟩
      rw [holds.row] at held
      obtain rfl := Option.some.inj held
      simp at less
    cases fit : fits again with
    | false =>
        rw [offer_unfit fit]
        exact .refl final
    | true =>
        rw [offer_commit fresh fit]
        exact holds.commit_same

/-- The two orders converge when both of them end in the newer snapshot. -/
theorem converges_of_holds
    (first : ((store.offer now older).offer now newer).Holds newer (stampOf now newer))
    (second : ((store.offer now newer).offer now older).Holds newer (stampOf now newer)) :
    store.Converges now older newer := by
  refine ⟨first.getMessages_eq second, fun final either => ?_⟩
  rcases List.mem_pair.mp either with rfl | rfl
  · exact ⟨first, (first.settled same order).2⟩
  · exact ⟨second, (second.settled same order).2⟩

/-- Offering the older snapshot lets the newer one in. -/
theorem offer_keeps (ownNewer : store.OwnIds newer) (current : store.isStale now newer = false) :
    (store.offer now older).OwnIds newer ∧ (store.offer now older).isStale now newer = false := by
  cases stale : store.isStale now older with
  | true =>
      rw [offer_stale stale]
      exact ⟨ownNewer, current⟩
  | false =>
      cases fit : fits older with
      | false =>
          rw [offer_unfit fit]
          exact ⟨ownNewer, current⟩
      | true =>
          rw [offer_commit stale fit]
          constructor
          · intro message member row found
            rcases older.storedMessages_owner found with own | ⟨old, held, owner⟩
            · rw [own, same]
            · rw [owner]
              exact ownNewer message member old held
          · rw [← Bool.not_eq_true, isStale_iff]
            rintro ⟨row, held, less⟩
            change (store.conversations.upsert older.id _ _).lookup newer.id = some row at held
            rw [Table.lookup_upsert, same, if_pos rfl] at held
            have stamp : row.updatedAt = stampOf now older := by
              rw [← Option.some.inj held]
              cases store.conversations.lookup newer.id <;> rfl
            rw [stamp] at less
            exact absurd order (not_lt.mpr less.le)

end Converge

/-- An empty snapshot leaves the messages alone. -/
theorem storedMessages_nil {conv : ChatSyncConversation} (listless : conv.messages = [])
    (messages : Table String MessageRow) (id : String) :
    (conv.storedMessages messages).lookup id = messages.lookup id := by
  rw [conv.lookup_storedMessages, listless]
  cases messages.lookup id <;> simp [lastMessage, Option.filter_some]

/-- An older snapshot that leaves no message leaves the conversation bare. -/
theorem offer_bare {store : ChatStore} {now : UInt64} {older newer : ChatSyncConversation}
    (bare : store.Bare newer.id)
    (idle : older.messages = [] ∨ store.isStale now older = true ∨ fits older = false) :
    (store.offer now older).Bare newer.id := by
  cases stale : store.isStale now older with
  | true => rwa [offer_stale stale]
  | false =>
      cases fit : fits older with
      | false => rwa [offer_unfit fit]
      | true =>
          have listless : older.messages = [] := by simpa [stale, fit] using idle
          rw [offer_commit stale fit]
          intro id row found
          change (older.storedMessages store.messages).lookup id = some row at found
          rw [storedMessages_nil listless] at found
          exact bare id row found

/-- A committed snapshot keeps an older one out. -/
theorem commit_stale (store : ChatStore) {now : UInt64} {older newer : ChatSyncConversation}
    (same : older.id = newer.id) (order : stampOf now older < stampOf now newer) :
    (store.commit newer (stampOf now newer)).isStale now older = true := by
  rw [isStale_iff, same]
  refine ⟨newer.toRow (stampOf now newer), ?_, by simpa using order⟩
  show (store.conversations.upsert newer.id _ _).lookup newer.id = _
  rw [Table.lookup_upsert, if_pos rfl]
  cases store.conversations.lookup newer.id <;> rfl

theorem Same.holds {one two : ChatStore} (same : one.Same two) {conv : ChatSyncConversation}
    {updatedAt : Int} (holds : two.Holds conv updatedAt) : one.Holds conv updatedAt := by
  have listed : one.getMessages conv.id = two.getMessages conv.id :=
    getMessages_congr fun id => by rw [same.messages]
  constructor
  · rw [same.conversations]
    exact holds.row
  · rw [listed]
    exact holds.messages

/-- An empty snapshot is held after its commit only when the conversation was bare. -/
theorem bare_of_holds {store : ChatStore} {conv : ChatSyncConversation} {updatedAt : Int}
    (listless : conv.messages = []) (holds : (store.commit conv updatedAt).Holds conv updatedAt) :
    store.Bare conv.id := by
  intro id row held
  have rows := holds.lookup id
  change ((conv.storedMessages store.messages).lookup id).filter _ = _ at rows
  rw [storedMessages_nil listless, held, listless] at rows
  simpa [lastMessage, Option.filter_some] using rows

/-- Ordered stamps in the lower half stay ordered as column values. -/
theorem stampOf_lt {now : UInt64} {older newer : ChatSyncConversation} {first second : UInt64}
    (firstStamp : older.updatedAt = some first) (secondStamp : newer.updatedAt = some second)
    (earlier : first < second) (small : second.toNat < 2 ^ 63) :
    stampOf now older < stampOf now newer := by
  have below : first.toNat < second.toNat := earlier
  rw [stampOf, stampOf, firstStamp, secondStamp, Option.getD_some, Option.getD_some,
    castI64_of_lt small, castI64_of_lt (below.trans small)]
  exact_mod_cast below

section Newer

variable {store : ChatStore} {now : UInt64} {older newer : ChatSyncConversation}
  (same : older.id = newer.id) (order : stampOf now older < stampOf now newer)

include same order

/-- A newer snapshot that does not fit is held at the end only when it was held before. -/
theorem holds_of_unfit (fit : fits newer = false)
    (back : ((store.offer now newer).offer now older).Holds newer (stampOf now newer)) :
    store.Holds newer (stampOf now newer) := by
  rw [offer_unfit fit] at back
  cases stale : store.isStale now older with
  | true => rwa [offer_stale stale] at back
  | false =>
      cases room : fits older with
      | false => rwa [offer_unfit room] at back
      | true =>
          rw [offer_commit stale room] at back
          have row := back.row
          change (store.conversations.upsert older.id _ _).lookup newer.id = _ at row
          rw [Table.lookup_upsert, same, if_pos rfl] at row
          have stamps : stampOf now older = stampOf now newer := by
            have rows := congrArg ConversationRow.updatedAt (Option.some.inj row)
            cases held : store.conversations.lookup newer.id <;> simpa [held] using rows
          exact absurd order (stamps ▸ lt_irrefl _)

/-- An empty newer snapshot is held at the end of both orders only when the conversation was bare and
the older one leaves no message. -/
theorem bare_of_listless (listless : newer.messages = []) (fit : fits newer = true)
    (current : store.isStale now newer = false) (ownOlder : store.OwnIds older)
    (ownNewer : store.OwnIds newer)
    (forth : ((store.offer now older).offer now newer).Holds newer (stampOf now newer))
    (back : ((store.offer now newer).offer now older).Holds newer (stampOf now newer)) :
    store.Bare newer.id ∧
      (older.messages = [] ∨ store.isStale now older = true ∨ fits older = false) := by
  obtain ⟨-, currentLater⟩ := offer_keeps same order ownNewer current
  rw [offer_commit current fit, offer_stale (store.commit_stale same order)] at back
  refine ⟨bare_of_holds listless back, ?_⟩
  by_contra busy
  obtain ⟨listed, stale, room⟩ : older.messages ≠ [] ∧ store.isStale now older = false ∧
      fits older = true := by simpa using busy
  obtain ⟨message, member⟩ := List.exists_mem_of_ne_nil _ listed
  obtain ⟨last, found⟩ := lastMessage_isSome member
  rw [offer_commit currentLater fit, offer_commit stale room] at forth
  have clear := bare_of_holds listless forth message.id _ (ownOlder.lookup _ found)
  exact clear same

/-- A store that holds the newer snapshot keeps it. -/
theorem converges_of_held (held : store.Holds newer (stampOf now newer)) :
    store.Converges now older newer := by
  obtain ⟨stale, still⟩ := held.settled same order
  have once := (still newer (by simp)).holds held
  apply converges_of_holds same order
  · rwa [offer_stale stale]
  · rwa [offer_stale (once.settled same order).1]

/-- A newer snapshot that fits wins when it has messages or finds none. -/
theorem converges_of_fit (fit : fits newer = true) (current : store.isStale now newer = false)
    (ownNewer : store.OwnIds newer)
    (listed : newer.messages ≠ [] ∨ store.Bare newer.id ∧
      (older.messages = [] ∨ store.isStale now older = true ∨ fits older = false)) :
    store.Converges now older newer := by
  obtain ⟨ownLater, currentLater⟩ := offer_keeps same order ownNewer current
  have forth : ((store.offer now older).offer now newer).Holds newer (stampOf now newer) := by
    rw [offer_commit currentLater fit]
    apply commit_holds ownLater
    rcases listed with some | ⟨bare, idle⟩
    · exact .inl some
    · exact .inr (offer_bare bare idle)
  have once : (store.offer now newer).Holds newer (stampOf now newer) := by
    rw [offer_commit current fit]
    apply commit_holds ownNewer
    rcases listed with some | ⟨bare, -⟩
    · exact .inl some
    · exact .inr bare
  apply converges_of_holds same order forth
  rw [offer_stale (once.settled same order).1]
  exact once

end Newer

section

variable (store : ChatStore) (now : UInt64) (older newer : ChatSyncConversation)

/-- Both orders of two snapshots converge to the newer one exactly when the store holds it already,
or it fits and either has messages or meets no message that is stored or comes with the older one. -/
theorem snapshots_converge_iff (same : older.id = newer.id) (first second : UInt64)
    (firstStamp : older.updatedAt = some first) (secondStamp : newer.updatedAt = some second)
    (earlier : first < second) (small : second.toNat < 2 ^ 63) (ownOlder : store.OwnIds older)
    (ownNewer : store.OwnIds newer) (current : store.isStale now newer = false) :
    store.Converges now older newer ↔ store.Holds newer (stampOf now newer) ∨
      fits newer = true ∧ (newer.messages ≠ [] ∨ store.Bare newer.id ∧
        (older.messages = [] ∨ store.isStale now older = true ∨ fits older = false)) := by
  have order : stampOf now older < stampOf now newer :=
    stampOf_lt firstStamp secondStamp earlier small
  constructor
  · rintro ⟨-, ends⟩
    obtain ⟨forth, -⟩ := ends _ List.mem_cons_self
    obtain ⟨back, -⟩ := ends _ (List.mem_cons_of_mem _ List.mem_cons_self)
    cases fit : fits newer with
    | false => exact .inl (holds_of_unfit same order fit back)
    | true =>
        refine .inr ⟨rfl, ?_⟩
        by_cases listless : newer.messages = []
        · exact .inr (bare_of_listless same order listless fit current ownOlder ownNewer forth back)
        · exact .inl listless
  · rintro (held | ⟨fit, listed⟩)
    · exact converges_of_held same order held
    · exact converges_of_fit same order fit current ownNewer listed

/-- A snapshot of a conversation with one message, or without any. -/
def plainSnapshot (id : String) (updatedAt : UInt64) (messages : List String) :
    ChatSyncConversation :=
  ⟨id, none, none, none, none, none, some updatedAt,
    messages.map fun message => ⟨message, "user", "hola", some 1⟩⟩

/-- A first snapshot without messages and a second one with a message converge. -/
theorem snapshots_converge_message :
    ChatStore.empty.Converges 0 (plainSnapshot "c" 1 []) (plainSnapshot "c" 2 ["m"]) :=
  (snapshots_converge_iff .empty 0 (plainSnapshot "c" 1 []) (plainSnapshot "c" 2 ["m"]) rfl 1 2 rfl
    rfl (by decide) (by decide) (fun _ member => by cases member)
    (fun _ _ _ held => by cases held) (by decide)).mpr
    (.inr ⟨by decide, .inl (by simp [plainSnapshot])⟩)

/-- A second snapshot without messages leaves the message of the first one. -/
theorem snapshots_diverge :
    ¬ ∀ (store : ChatStore) (now : UInt64) (older newer : ChatSyncConversation),
      older.id = newer.id → ∀ first second : UInt64, older.updatedAt = some first →
      newer.updatedAt = some second → first < second → second.toNat < 2 ^ 63 →
      store.OwnIds older → store.OwnIds newer → store.isStale now newer = false →
      store.Converges now older newer := by
  intro claim
  obtain ⟨-, ends⟩ := claim .empty 0 (plainSnapshot "c" 1 ["m"]) (plainSnapshot "c" 2 []) rfl 1 2 rfl
    rfl (by decide) (by decide) (fun _ _ _ held => by cases held)
    (fun _ member => by cases member) (by decide)
  have rows := (ends _ List.mem_cons_self).1.messages "m"
  exact absurd rows (by decide +kernel)

/-- A first snapshot in an empty store owns its message. -/
theorem snapshot_owns_message :
    let conv := plainSnapshot "c" 1 ["m"]
    (ChatStore.empty.offer 0 conv).Lists "c" conv.messages ∧
      SparesOthers .empty (ChatStore.empty.offer 0 conv) "c" := by
  refine (snapshot_owns_iff .empty 0 (plainSnapshot "c" 1 ["m"]) (by simp [plainSnapshot])
    (by decide)).mpr (.inl ⟨by decide, ?_, ?_⟩)
  · intro message member row held
    cases held
  · intro id message last
    obtain ⟨member, -⟩ := lastMessage_mem last
    simp only [plainSnapshot, List.map_cons, List.map_nil, List.mem_singleton] at member
    subst member
    decide

/-- A message id of another conversation changes that conversation and stays with it. -/
theorem snapshot_overwrites :
    ¬ ∀ (store : ChatStore) (now : UInt64) (conv : ChatSyncConversation), conv.messages ≠ [] →
      store.isStale now conv = false → ∀ (count : Nat) (after : ChatStore),
      store.upsertConversation now conv = (.ok count, after) →
      after.Lists conv.id conv.messages ∧ SparesOthers store after conv.id := by
  intro claim
  obtain ⟨lists, -⟩ := claim (ChatStore.empty.offer 0 (plainSnapshot "b" 1 ["m"])) 0
    (plainSnapshot "a" 1 ["m"]) (by simp [plainSnapshot]) (by decide) 1 _ rfl
  have rows := lists "m"
  exact absurd rows (by decide)

end

end ChatStore

end Daemon
