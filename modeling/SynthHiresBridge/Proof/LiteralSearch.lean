import SynthHiresBridge.Data.Newest
import SynthHiresBridge.Daemon.ChatSearch
import SynthHiresBridge.Proof.ChatSnapshot

namespace Daemon

namespace ChatStore

variable (store : ChatStore)

/-- A stored conversation has a text of a kind in its title or in one of its messages. -/
def Has (kind : String → Prop) (conv : StoredConversation) : Prop :=
  ∃ row, store.conversations.lookup conv.id = some row ∧ row.toStored conv.id = conv ∧
    ((∃ title, row.title = some title ∧ kind title) ∨
      ∃ id message, store.messages.lookup id = some message ∧ message.conversationId = conv.id ∧
        kind message.content)

/-- The conversations that a search shows, in a set. -/
def Hits (query : String) : Set StoredConversation :=
  {conv | store.Has (fun text => Text.like (patternOf query) text = true) conv}

/-- The conversations that have the query itself. -/
def Mentions (query : String) : Set StoredConversation :=
  {conv | store.Has (Text.Inside query) conv}

/-- A search gives the newest conversations that have the query, and each of them once. -/
def Exact (sorter : Sorter) (query : String) (limit : UInt64) : Prop :=
  ∃ list, Newest.Shows StoredConversation.updatedAt (store.Mentions query) list ∧
    searchConversations sorter store query limit = .ok (list.take limit.toNat)

/-- A query and a limit that a search takes as they are meant: SQLite accepts the variable and the
pattern, the limit stays positive or bounds nothing, and no first place goes to a conversation that
only the pattern hits or is lost by one that it does not hit. -/
structure Literal (query : String) (limit : UInt64) : Prop where
  bound : patternBytes query ≤ maxVariableLength
  short : patternBytes query ≤ maxPatternLength ∨ limit = 0 ∨ store.conversations = ∅
  room : limit.toNat < 2 ^ 63 ∨ (store.Hits query).ncard ≤ limit.toNat
  covers : Newest.Covers StoredConversation.updatedAt (store.Hits query) (store.Mentions query)
    limit.toNat

section Join

variable {store}

theorem mem_messagesOf {id : String} {row : MessageRow} : row ∈ store.messagesOf id ↔
    ∃ key, store.messages.lookup key = some row ∧ row.conversationId = id := by
  rw [messagesOf, List.mem_filter, List.mem_map, beq_iff_eq]
  constructor
  · rintro ⟨⟨entry, member, rfl⟩, own⟩
    exact ⟨entry.1, AList.mem_lookup_iff.mpr member, own⟩
  · rintro ⟨key, held, own⟩
    exact ⟨⟨⟨key, row⟩, AList.mem_lookup_iff.mp held, rfl⟩, own⟩

theorem partnersOf_ne_nil (id : String) : store.partnersOf id ≠ [] := by
  unfold partnersOf
  split
  · exact List.cons_ne_nil _ _
  · rename_i rows filled
    exact fun none => filled (List.map_eq_nil_iff.mp none)

theorem mem_partnersOf {id : String} {row : MessageRow} : some row ∈ store.partnersOf id ↔
    row ∈ store.messagesOf id := by
  unfold partnersOf
  split
  · rename_i empty
    simp [empty]
  · simp

theorem mem_joined {conv : StoredConversation} {message : Option MessageRow} :
    (conv, message) ∈ store.joined ↔
      (∃ row, store.conversations.lookup conv.id = some row ∧ row.toStored conv.id = conv) ∧
        message ∈ store.partnersOf conv.id := by
  rw [joined, List.mem_flatMap]
  constructor
  · rintro ⟨entry, member, inside⟩
    obtain ⟨partner, listed, same⟩ := List.mem_map.mp inside
    obtain ⟨rfl, rfl⟩ := Prod.mk.inj same
    exact ⟨⟨entry.2, AList.mem_lookup_iff.mpr member, rfl⟩, listed⟩
  · rintro ⟨⟨row, held, same⟩, listed⟩
    exact ⟨⟨conv.id, row⟩, AList.mem_lookup_iff.mp held, List.mem_map.mpr ⟨message, listed, by rw [same]⟩⟩

theorem joined_eq_nil_iff : store.joined = [] ↔ store.conversations = ∅ := by
  rw [joined, List.flatMap_eq_nil_iff]
  constructor
  · intro none
    apply AList.ext
    apply List.eq_nil_iff_forall_not_mem.mpr
    exact fun entry member => partnersOf_ne_nil entry.1 (List.map_eq_nil_iff.mp (none entry member))
  · rintro empty entry member
    rw [empty] at member
    exact absurd member List.not_mem_nil

/-- The joined rows that meet the condition belong to the conversations that the search hits. -/
theorem mem_matching {query : String} {conv : StoredConversation} :
    conv ∈ store.matching (patternOf query) ↔ conv ∈ store.Hits query := by
  rw [matching, List.mem_dedup, List.mem_map]
  constructor
  · rintro ⟨⟨own, message⟩, kept, rfl⟩
    obtain ⟨inside, hit⟩ := List.mem_filter.mp kept
    obtain ⟨⟨row, held, same⟩, partner⟩ := mem_joined.mp inside
    refine ⟨row, held, same, ?_⟩
    rcases Bool.or_eq_true_iff.mp hit with title | content
    · obtain ⟨text, own, matched⟩ := (Option.any_eq_true _ _).mp title
      exact .inl ⟨text, (congrArg StoredConversation.title same).trans own, matched⟩
    · obtain ⟨text, rfl, matched⟩ := (Option.any_eq_true _ _).mp content
      obtain ⟨id, stored, own⟩ := mem_messagesOf.mp (mem_partnersOf.mp partner)
      exact .inr ⟨id, text, stored, own, matched⟩
  · rintro ⟨row, held, same, titled | ⟨id, message, stored, own, matched⟩⟩
    · obtain ⟨title, own, matched⟩ := titled
      obtain ⟨partner, listed⟩ := List.exists_mem_of_ne_nil _ (partnersOf_ne_nil conv.id)
      refine ⟨(conv, partner), List.mem_filter.mpr ⟨mem_joined.mpr ⟨⟨row, held, same⟩, listed⟩, ?_⟩, rfl⟩
      have named : conv.title = some title := by
        rw [← same]
        exact own
      exact Bool.or_eq_true_iff.mpr (.inl ((Option.any_eq_true _ _).mpr ⟨title, named, matched⟩))
    · have listed := mem_partnersOf.mpr (mem_messagesOf.mpr ⟨id, stored, own⟩)
      refine ⟨(conv, some message),
        List.mem_filter.mpr ⟨mem_joined.mpr ⟨⟨row, held, same⟩, listed⟩, ?_⟩, rfl⟩
      exact Bool.or_eq_true_iff.mpr (.inr matched)

theorem nodup_matching (pattern : String) : (store.matching pattern).Nodup :=
  List.nodup_dedup _

end Join

/-- There are finitely many conversations of a kind. -/
theorem finite_has (kind : String → Prop) : {conv | store.Has kind conv}.Finite := by
  apply (List.finite_toSet (store.conversations.entries.map fun entry => entry.2.toStored entry.1)).subset
  rintro conv ⟨row, held, same, -⟩
  exact List.mem_map.mpr ⟨⟨conv.id, row⟩, AList.mem_lookup_iff.mp held, same⟩

section Limit

variable {Row : Type} {limit : UInt64} {rows : List Row}

theorem limitRows_of_room (room : limit.toNat < 2 ^ 63 ∨ rows.length ≤ limit.toNat) :
    limitRows (castI64 limit) rows = rows.take limit.toNat := by
  have top := limit.toNat_lt
  rw [limitRows, castI64_eq]
  by_cases small : limit.toNat < 2 ^ 63
  · rw [if_pos small, if_neg (by omega), Int.toNat_natCast]
  · rw [if_neg small, if_pos (by omega), List.take_of_length_le (room.resolve_left small)]

/-- A limit that turns negative lets all rows through. -/
theorem room_of_limitRows {other : List Row}
    (same : limitRows (castI64 limit) rows = other.take limit.toNat) :
    limit.toNat < 2 ^ 63 ∨ rows.length ≤ limit.toNat := by
  by_cases small : limit.toNat < 2 ^ 63
  · exact .inl small
  · have top := limit.toNat_lt
    rw [limitRows, castI64_eq, if_neg small, if_pos (by omega)] at same
    rw [same]
    exact .inr (List.length_take_le _ _)

end Limit

section Search

variable {store} {sorter : Sorter} {query : String} {limit : UInt64}

theorem castI64_eq_zero_iff : castI64 limit = 0 ↔ limit = 0 := by
  have top := limit.toNat_lt
  rw [← UInt64.toNat_inj, castI64_eq]
  show _ ↔ limit.toNat = 0
  split <;> omega

/-- A search answers if SQLite takes the variable and the pattern, which it reads with a row. -/
theorem search_eq_ok_iff {rows : List StoredConversation} :
    searchConversations sorter store query limit = .ok rows ↔
      patternBytes query ≤ maxVariableLength ∧
      (patternBytes query ≤ maxPatternLength ∨ limit = 0 ∨ store.conversations = ∅) ∧
      limitRows (castI64 limit) (sorter.sort (store.matching (patternOf query))) = rows := by
  unfold searchConversations
  simp only [ne_eq, castI64_eq_zero_iff, joined_eq_nil_iff]
  split
  · rename_i long
    exact iff_of_false (fun same => nomatch same) fun fits => absurd long (not_lt.mpr fits.1)
  · rename_i bound
    split
    · rename_i refused
      refine iff_of_false (fun same => nomatch same) ?_
      rintro ⟨-, short | none | empty, -⟩
      · exact absurd refused.2.2 (not_lt.mpr short)
      · exact refused.1 none
      · exact refused.2.1 empty
    · rename_i taken
      rw [Except.ok.injEq]
      refine ⟨fun same => ⟨not_lt.mp bound, ?_, same⟩, fun fits => fits.2.2⟩
      by_contra refused
      rw [not_or, not_or, not_le] at refused
      exact taken ⟨refused.2.1, refused.2.2, refused.1⟩

theorem shows_sort (sorter : Sorter) (query : String) :
    Newest.Shows StoredConversation.updatedAt (store.Hits query)
      (sorter.sort (store.matching (patternOf query))) where
  distinct := (sorter.perm _).nodup_iff.mpr (nodup_matching _)
  members _ := (sorter.perm _).mem_iff.trans mem_matching
  newest := sorter.newest _

end Search

section Exact

variable {store} {query : String} {limit : UInt64}

theorem covers_iff : (∀ list, Newest.Shows StoredConversation.updatedAt (store.Hits query) list →
    ∃ other, Newest.Shows StoredConversation.updatedAt (store.Mentions query) other ∧
      list.take limit.toNat = other.take limit.toNat) ↔
    Newest.Covers StoredConversation.updatedAt (store.Hits query) (store.Mentions query)
      limit.toNat :=
  Newest.covers_iff limit.toNat (shows_sort Sorter.stable query)
    (store.finite_has (Text.Inside query))

theorem literal_of_exact (exact : ∀ sorter, store.Exact sorter query limit) :
    store.Literal query limit := by
  obtain ⟨list, shows, answer⟩ := exact Sorter.stable
  obtain ⟨bound, short, same⟩ := search_eq_ok_iff.mp answer
  have room := room_of_limitRows same
  rw [← (shows_sort Sorter.stable query).ncard] at room
  refine ⟨bound, short, room, covers_iff.mp ?_⟩
  intro order found
  -- A sorter may give any order of the conversations that are hit.
  let sorter := Sorter.choose (found.nodup_perm (nodup_matching _) fun _ => mem_matching).symm
    found.newest
  obtain ⟨other, own, result⟩ := exact sorter
  obtain ⟨-, -, taken⟩ := search_eq_ok_iff.mp result
  have chosen : sorter.sort (store.matching (patternOf query)) = order := if_pos rfl
  rw [chosen, limitRows_of_room (found.ncard ▸ room)] at taken
  exact ⟨other, own, taken⟩

theorem exact_of_literal (literal : store.Literal query limit) (sorter : Sorter) :
    store.Exact sorter query limit := by
  have shows : Newest.Shows _ (store.Hits query) _ := shows_sort sorter query
  obtain ⟨other, own, same⟩ := covers_iff.mpr literal.covers _ shows
  refine ⟨other, own, search_eq_ok_iff.mpr ⟨literal.bound, literal.short, ?_⟩⟩
  rw [← same]
  exact limitRows_of_room (shows.ncard ▸ literal.room)

end Exact

/-- A search is exact, whatever order SQLite gives to equal stamps, just for the queries and limits
that it takes as they are meant. -/
theorem searchConversations_exact_iff (query : String) (limit : UInt64) :
    (∀ sorter, store.Exact sorter query limit) ↔ store.Literal query limit :=
  ⟨literal_of_exact, exact_of_literal⟩

section Plain

variable {store}

theorem has_mono {kind other : String → Prop} {conv : StoredConversation}
    (follows : ∀ text, store.Has (· = text) conv → kind text → other text)
    (has : store.Has kind conv) : store.Has other conv := by
  obtain ⟨row, held, own, ⟨title, named, holds⟩ | ⟨id, message, stored, part, holds⟩⟩ := has
  · have inside : store.Has (· = title) conv := ⟨row, held, own, .inl ⟨title, named, rfl⟩⟩
    exact ⟨row, held, own, .inl ⟨title, named, follows title inside holds⟩⟩
  · have inside : store.Has (· = message.content) conv :=
      ⟨row, held, own, .inr ⟨id, message, stored, part, rfl⟩⟩
    exact ⟨row, held, own, .inr ⟨id, message, stored, part, follows message.content inside holds⟩⟩

/-- A short query without wildcards is taken as it is meant in a store whose texts have no NUL. -/
theorem literal_of_plain {query : String} {limit : UInt64}
    (plain : ∀ char ∈ query.toList, char ∉ ['%', '_', '\x00', '\uFFFD', '\uFFFE', '\uFFFF'])
    (clean : ∀ text conv, store.Has (· = text) conv → '\x00' ∉ text.toList)
    (short : patternBytes query ≤ maxPatternLength) (small : limit.toNat < 2 ^ 63) :
    store.Literal query limit := by
  have fits : maxPatternLength ≤ maxVariableLength := by
    delta maxPatternLength maxVariableLength
    decide
  refine ⟨short.trans fits, .inl short, .inl small, .of_eq ?_⟩
  ext conv
  constructor
  · exact has_mono fun text own => (Text.like_inside plain (clean text conv own)).mp
  · exact has_mono fun text own => (Text.like_inside plain (clean text conv own)).mpr

end Plain

section Wild

/-- A text without wildcards that the query hits. -/
def dodge (query : List Char) : List Char :=
  query.map fun char => if char = '%' ∨ char = '_' then ' ' else char

theorem likeChars_dodge (query : List Char) :
    Text.likeChars (query ++ ['%']) (dodge query) = true := by
  induction query with
  | nil => exact Text.likeChars_open []
  | cons char query ih =>
      by_cases percent : char = '%'
      · subst percent
        exact (Text.likeChars_any _ _).mpr ⟨dodge query, List.suffix_cons ' ' _, ih⟩
      · refine (Text.likeChars_cons percent _ _ _).mpr ⟨?_, ih⟩
        by_cases line : char = '_'
        · exact .inl line
        · exact .inr (congrArg Text.fold (if_neg (not_or.mpr ⟨percent, line⟩)).symm)

theorem not_mem_dodge (query : List Char) {wild : Char} (special : wild = '%' ∨ wild = '_') :
    wild ∉ dodge query := by
  intro member
  obtain ⟨char, -, same⟩ := List.mem_map.mp member
  split at same
  · subst same
    exact absurd special (by decide)
  · rename_i plain
    exact plain (same ▸ special)

theorem solid_dodge {query : List Char} (solid : '\x00' ∉ query) : '\x00' ∉ dodge query := by
  intro member
  obtain ⟨char, inside, same⟩ := List.mem_map.mp member
  split at same
  · cases same
  · exact solid (same ▸ inside)

theorem not_inside_dodge {query : String} {wild : Char} (special : wild = '%' ∨ wild = '_')
    (member : wild ∈ query.toList) : ¬ Text.Inside query (String.ofList (dodge query.toList)) := by
  intro inside
  have plain : wild.isAlpha = false ∧ wild.toLower = wild := by
    rcases special with rfl | rfl <;> decide
  have lowered : wild ∈ Text.lower query.toList := List.mem_map.mpr ⟨wild, member, plain.2⟩
  obtain ⟨char, listed, same⟩ := List.mem_map.mp (inside.subset lowered)
  rw [String.toList_ofList] at listed
  exact not_mem_dodge query.toList special (Text.toLower_eq plain.1 same ▸ listed)

theorem like_dodge {query : String} (solid : '\x00' ∉ query.toList) :
    Text.like (patternOf query) (String.ofList (dodge query.toList)) = true := by
  have clean : '\x00' ∉ (String.ofList (dodge query.toList)).toList := by
    rw [String.toList_ofList]
    exact solid_dodge solid
  rw [patternOf, Text.like_solid solid clean, String.toList_ofList, Text.likeChars_any]
  exact ⟨_, List.suffix_rfl, likeChars_dodge query.toList⟩

end Wild

section Sole

/-- A chat whose title is a text. -/
def titled (title : String) : ChatSyncConversation :=
  ⟨"c1", some title, none, none, none, none, some 1, []⟩

def sole (title : String) : ChatStore :=
  (empty.upsertConversation 0 (titled title)).2

theorem sole_eq (title : String) :
    sole title = empty.commit (titled title) (stampOf 0 (titled title)) := rfl

def soleRow (title : String) : ConversationRow :=
  (titled title).toRow (stampOf 0 (titled title))

theorem sole_has {title : String} {kind : String → Prop} {conv : StoredConversation} :
    (sole title).Has kind conv ↔ conv = (soleRow title).toStored "c1" ∧ kind title := by
  have only (id : String) : (sole title).conversations.lookup id =
      if id = "c1" then some (soleRow title) else none := Table.lookup_upsert _ _ _ _ _
  constructor
  · rintro ⟨row, held, own, ⟨text, named, holds⟩ | ⟨id, message, stored, -⟩⟩
    · rw [only] at held
      split at held
      · rename_i first
        obtain rfl := Option.some.inj held
        obtain rfl : title = text := Option.some.inj named
        exact ⟨by rw [← own, first], holds⟩
      · cases held
    · have nothing : (sole title).messages.lookup id = none := rfl
      rw [nothing] at stored
      cases stored
  · rintro ⟨rfl, holds⟩
    exact ⟨soleRow title, (only "c1").trans (if_pos rfl), rfl, .inl ⟨title, rfl, holds⟩⟩

end Sole

/-- Every query with a wildcard hits a chat that does not have it. -/
theorem exists_not_exact {query : String} (solid : '\x00' ∉ query.toList)
    (wild : '%' ∈ query.toList ∨ '_' ∈ query.toList) :
    ∃ store : ChatStore, ¬ ∀ sorter, store.Exact sorter query 1 := by
  obtain ⟨char, special, member⟩ : ∃ char, (char = '%' ∨ char = '_') ∧ char ∈ query.toList := by
    rcases wild with percent | line
    · exact ⟨'%', .inl rfl, percent⟩
    · exact ⟨'_', .inr rfl, line⟩
  refine ⟨sole (String.ofList (dodge query.toList)), fun exact => ?_⟩
  have literal := literal_of_exact exact
  have newer := literal.covers.extra _ (sole_has.mpr ⟨rfl, like_dodge solid⟩) fun mentions =>
    not_inside_dodge special member (sole_has.mp mentions).2
  obtain ⟨other, hit, above⟩ := Set.nonempty_of_ncard_ne_zero (Nat.one_le_iff_ne_zero.mp newer)
  rw [(sole_has.mp hit).1] at above
  exact lt_irrefl _ above

/-- A search for a percentage gives a chat that has only its digits. -/
theorem percentage_hits_digits : ¬ (sole "1000 things").Exact Sorter.stable "100%" 200 := by
  rintro ⟨list, shows, answer⟩
  have given : searchConversations Sorter.stable (sole "1000 things") "100%" 200 =
      .ok [(soleRow "1000 things").toStored "c1"] := by
    decide +kernel
  have member := List.mem_of_mem_take ((Except.ok.inj (given.symm.trans answer)) ▸ List.mem_singleton_self _)
  have inside := (sole_has.mp ((shows.members _).mp member)).2
  exact absurd inside (by decide)

end ChatStore

end Daemon
