import SynthHiresBridge.Data.Table
import SynthHiresBridge.Daemon.Engines

namespace Daemon

structure MemoryEntry where
  id : Int
  kind : String
  content : String
  importance : Int
  tags : List String
  createdAt : Int
  updatedAt : Int
  hits : Int
  deriving DecidableEq

/-- An operation answers with one of these results. -/
inductive MemoryResult where
  | write (id : Int) (deduplicated : Bool) (total : Nat)
  | recall (entries : List MemoryEntry) (total : Nat)
  | forget (deleted : Nat)
  | stats (total reflections : Nat)
  deriving DecidableEq

structure MemoryRow where
  project : String
  contentHash : String
  kind : String
  content : String
  importance : Int
  tags : String
  createdAt : Int
  updatedAt : Int
  hits : Int
  deriving DecidableEq

/-- A memory store has one table with a unique index on the project and the content hash, and the ids
it has given out end at its sequence. -/
structure MemoryStore where
  memories : Table Int MemoryRow
  sequence : Int
  unique : ∀ id row other held, memories.lookup id = some row → memories.lookup other = some held →
    row.project = held.project → row.contentHash = held.contentHash → id = other
  issued : ∀ id row, memories.lookup id = some row → id ≤ sequence

/-- An operation runs at a time, with the text search of the database. -/
structure MemoryMoment where
  now : Int
  /-- The full-text index matches a query against a content, when the build has one. -/
  fts : Option (String → String → Bool)
  like : (pattern : String) → (content : String) → Bool

/-- The last id that a table can give out. -/
def maxRowid : Int := 2 ^ 63 - 1

def contentHash (host : Host) (content : String) : String := host.sha256 (Text.encode content)

/-- Tags are stored in one text with commas between them. -/
def parseTags (raw : Option String) : List String :=
  match raw with
  | none => []
  | some text => ((Text.split text (· == ',')).map Text.trim).filter (· ≠ "")

def MemoryRow.toEntry (row : MemoryRow) (id : Int) : MemoryEntry :=
  ⟨id, row.kind, row.content, row.importance, parseTags (some row.tags), row.createdAt,
    row.updatedAt, row.hits⟩

/-- Remembering a content again raises its importance. -/
def MemoryRow.bump (row : MemoryRow) (now : Int) : MemoryRow :=
  { row with importance := min 5 (row.importance + 1), updatedAt := now, hits := row.hits + 1 }

def MemoryRow.touch (row : MemoryRow) : MemoryRow := { row with hits := row.hits + 1 }

/-- The rank of a row grows with its importance and its last change. -/
def MemoryRow.rank (row : MemoryRow) : Int := row.importance * 10 + row.updatedAt.tdiv 86400

/-- Rows come by their rank, then by their last change and then by their id, the latest first. -/
def rankedBefore (first second : Int × MemoryRow) : Bool :=
  decide (second.2.rank < first.2.rank ∨ second.2.rank = first.2.rank ∧
    (second.2.updatedAt < first.2.updatedAt ∨ second.2.updatedAt = first.2.updatedAt ∧
      second.1 ≤ first.1))

/-- A recall lists all rows of the project, or it searches them. -/
inductive Strategy where
  | all
  | fts (query : String)
  | like (pattern : String)

/-- The words of a query become prefix terms. -/
def queryTerms (query : String) : List String :=
  ((Text.splitWhitespace query).map fun term => "\"" ++ Text.replace term "\"" "" ++ "\"*").filter
    fun term => 2 < (Text.encode term).length

/-- A query without terms recalls everything. -/
def recallStrategy (moment : MemoryMoment) (query : Option String) : Strategy :=
  let query := query.getD ""
  if Text.trim query = "" then .all
  else if moment.fts.isSome then
    let terms := queryTerms query
    if terms.isEmpty then .all else .fts (" ".intercalate terms)
  else .like ("%" ++ Text.replace (Text.replace query "%" "") "_" "" ++ "%")

/-- A strategy keeps the rows whose content it matches. -/
def Strategy.keeps (strategy : Strategy) (moment : MemoryMoment) (content : String) : Bool :=
  match strategy with
  | .all => true
  | .fts query => moment.fts.any fun search => search query content
  | .like pattern => moment.like pattern content

def recallLimit (limit : Option Int) : Nat := (max 1 (min 100 (limit.getD 20))).toNat

namespace MemoryStore

def empty : MemoryStore where
  memories := ∅
  sequence := 0
  unique _ _ _ _ found := by cases found
  issued _ _ found := by cases found

def ofProject (project : String) (_ : Int) (row : MemoryRow) : Bool := row.project == project

/-- The number of rows of a project. -/
def total (store : MemoryStore) (project : String) : Nat := store.memories.count (ofProject project)

/-- An update leaves the columns of the unique index alone. -/
def update (store : MemoryStore) (change : Int → MemoryRow → MemoryRow)
    (project : ∀ id row, (change id row).project = row.project)
    (contentHash : ∀ id row, (change id row).contentHash = row.contentHash) : MemoryStore where
  memories := store.memories.update change
  sequence := store.sequence
  unique id row other held one two sameProject sameHash := by
    rw [Table.lookup_update, Option.map_eq_some_iff] at one two
    obtain ⟨first, here, rfl⟩ := one
    obtain ⟨second, there, rfl⟩ := two
    rw [project, project] at sameProject
    rw [contentHash, contentHash] at sameHash
    exact store.unique id first other second here there sameProject sameHash
  issued id row found := by
    rw [Table.lookup_update, Option.map_eq_some_iff] at found
    obtain ⟨first, here, -⟩ := found
    exact store.issued id first here

def deleteWhere (store : MemoryStore) (gone : Int → MemoryRow → Bool) : MemoryStore where
  memories := store.memories.deleteWhere gone
  sequence := store.sequence
  unique id row other held one two := by
    rw [Table.lookup_deleteWhere, Option.filter_eq_some_iff] at one two
    exact store.unique id row other held one.1 two.1
  issued id row found := by
    rw [Table.lookup_deleteWhere, Option.filter_eq_some_iff] at found
    exact store.issued id row found.1

/-- The row of a project with a content hash. -/
def dedup (store : MemoryStore) (project hash : String) : Option (Int × MemoryRow) :=
  store.memories.find fun _ row => row.project == project && row.contentHash == hash

/-- A new row takes the next id of the sequence. -/
def append (store : MemoryStore) (row : MemoryRow)
    (fresh : store.dedup row.project row.contentHash = none) : MemoryStore where
  memories := store.memories.insert (store.sequence + 1) row
  sequence := store.sequence + 1
  unique id first other second one two sameProject sameHash := by
    have apart : ∀ key held, store.memories.lookup key = some held →
        row.project = held.project → row.contentHash ≠ held.contentHash := by
      intro key held found project hash
      have missed := (Table.find_eq_none_iff _ _).mp fresh key held found
      simp [project, hash] at missed
    by_cases left : id = store.sequence + 1
    · by_cases right : other = store.sequence + 1
      · rw [left, right]
      · rw [left, AList.lookup_insert, Option.some.injEq] at one
        rw [AList.lookup_insert_ne right] at two
        subst one
        exact absurd sameHash (apart other second two sameProject)
    · rw [AList.lookup_insert_ne left] at one
      by_cases right : other = store.sequence + 1
      · rw [right, AList.lookup_insert, Option.some.injEq] at two
        subst two
        exact absurd sameHash.symm (apart id first one sameProject.symm)
      · rw [AList.lookup_insert_ne right] at two
        exact store.unique id first other second one two sameProject sameHash
  issued id held found := by
    by_cases new : id = store.sequence + 1
    · exact new.le
    · rw [AList.lookup_insert_ne new] at found
      have known := store.issued id held found
      omega

/-- `INSERT` fails on a clash with the unique index and when no id is left. -/
def insert (store : MemoryStore) (row : MemoryRow) : Except String (Int × MemoryStore) :=
  if fresh : store.dedup row.project row.contentHash = none then
    if store.sequence = maxRowid then .error "database or disk is full"
    else .ok (store.sequence + 1, store.append row fresh)
  else .error "UNIQUE constraint failed: memories.project, memories.content_hash"

/-- The row of a content that is remembered for the first time. -/
def newRow (host : Host) (moment : MemoryMoment) (project content : String) (kind : Option String)
    (importance : Option Int) (tags : List String) : MemoryRow where
  project := project
  contentHash := contentHash host content
  kind := (kind.filter fun kind => Text.trim kind ≠ "").getD "fact"
  content := content
  importance := max 1 (min 5 (importance.getD 3))
  tags := ",".intercalate tags
  createdAt := moment.now
  updatedAt := moment.now
  hits := 0

def bump (store : MemoryStore) (project : String) (id now : Int) : MemoryStore :=
  store.update (fun other row => if other = id ∧ row.project = project then row.bump now else row)
    (by intros; split <;> rfl) (by intros; split <;> rfl)

def remember (store : MemoryStore) (host : Host) (moment : MemoryMoment)
    (project content : String) (kind : Option String) (importance : Option Int)
    (tags : List String) : Except String MemoryResult × MemoryStore :=
  let content := Text.trim content
  if content = "" then (.error "remember: content is empty", store)
  else match store.dedup project (contentHash host content) with
    | some (id, _) =>
        let store := store.bump project id moment.now
        (.ok (.write id true (store.total project)), store)
    | none => match store.insert (newRow host moment project content kind importance tags) with
      | .error error => (.error ("insert: " ++ error), store)
      | .ok (id, store) => (.ok (.write id false (store.total project)), store)

/-- A recalled entry counts one more hit. -/
def touch (store : MemoryStore) (entry : MemoryEntry) : MemoryStore :=
  store.update (fun id row => if id = entry.id then row.touch else row)
    (by intros; split <;> rfl) (by intros; split <;> rfl)

/-- The entries that a recall finds, the best ones first. -/
def recalled (store : MemoryStore) (moment : MemoryMoment) (project : String)
    (query : Option String) (limit : Option Int) : List MemoryEntry :=
  let strategy := recallStrategy moment query
  let rows := store.memories.select
    (fun _ row => row.project == project && strategy.keeps moment row.content) rankedBefore
  (rows.take (recallLimit limit)).map fun (id, row) => row.toEntry id

def «recall» (store : MemoryStore) (moment : MemoryMoment) (project : String)
    (query : Option String) (limit : Option Int) : Except String MemoryResult × MemoryStore :=
  let entries := store.recalled moment project query limit
  let store := entries.foldl touch store
  (.ok (.recall entries (store.total project)), store)

def forget (store : MemoryStore) (project : String) (id : Option Int) (all : Bool) :
    Except String MemoryResult × MemoryStore :=
  if all then
    (.ok (.forget (store.total project)), store.deleteWhere (ofProject project))
  else match id with
    | some id =>
        let gone (other : Int) (row : MemoryRow) := other == id && row.project == project
        (.ok (.forget (store.memories.count gone)), store.deleteWhere gone)
    | none => (.error "forget: needs id or all=true", store)

def stats (store : MemoryStore) (project : String) : Except String MemoryResult × MemoryStore :=
  (.ok (.stats (store.total project) (store.memories.count fun _ row =>
    row.project == project && row.kind == "reflection")), store)

/-- A reflection is remembered with its own kind and importance. -/
def execute (store : MemoryStore) (host : Host) (moment : MemoryMoment) (op : MemoryOp) :
    Except String MemoryResult × MemoryStore :=
  match op with
  | .remember project content kind importance tags =>
      store.remember host moment project content kind importance tags
  | .recall project query limit => store.recall moment project query limit
  | .forget project id all => store.forget project id all
  | .reflect project summary tags =>
      store.remember host moment project summary (some "reflection") (some 4) tags
  | .stats project => store.stats project

end MemoryStore

end Daemon
