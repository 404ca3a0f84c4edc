import SynthHiresBridge.Daemon.MemoryStore

namespace Daemon

/-- The project that an operation works on. -/
def MemoryOp.project : MemoryOp → String
  | .remember project _ _ _ _ => project
  | .recall project _ _ => project
  | .forget project _ _ => project
  | .reflect project _ _ => project
  | .stats project => project

namespace MemoryRow

/-- A row carries the hash of its content and an importance from 1 to 5. -/
structure Valid (host : Host) (row : MemoryRow) : Prop where
  hashed : row.contentHash = Daemon.contentHash host row.content
  low : 1 ≤ row.importance
  high : row.importance ≤ 5

/-- A row keeps its columns apart from its importance, which only grows, its time and its hits. -/
structure Grows (row later : MemoryRow) : Prop where
  project : later.project = row.project
  content : later.content = row.content
  contentHash : later.contentHash = row.contentHash
  importance : row.importance ≤ 5 → row.importance ≤ later.importance ∧ later.importance ≤ 5

theorem Grows.refl (row : MemoryRow) : row.Grows row := ⟨rfl, rfl, rfl, fun high => ⟨le_rfl, high⟩⟩

theorem Grows.trans {first second third : MemoryRow} (one : first.Grows second)
    (two : second.Grows third) : first.Grows third where
  project := two.project.trans one.project
  content := two.content.trans one.content
  contentHash := two.contentHash.trans one.contentHash
  importance high := by
    have middle := one.importance high
    have last := two.importance middle.2
    exact ⟨middle.1.trans last.1, last.2⟩

theorem bump_grows (row : MemoryRow) (now : Int) : row.Grows (row.bump now) where
  project := rfl
  content := rfl
  contentHash := rfl
  importance high := by
    simp only [bump]
    omega

theorem touch_grows (row : MemoryRow) : row.Grows row.touch :=
  ⟨rfl, rfl, rfl, fun high => ⟨le_rfl, high⟩⟩

theorem Valid.grows {host : Host} {row later : MemoryRow} (valid : row.Valid host)
    (grows : row.Grows later) : later.Valid host := by
  have between := grows.importance valid.high
  refine ⟨?_, valid.low.trans between.1, between.2⟩
  rw [grows.contentHash, grows.content, valid.hashed]

end MemoryRow

namespace MemoryStore

/-- All rows are valid. -/
def Valid (host : Host) (store : MemoryStore) : Prop :=
  ∀ id row, store.memories.lookup id = some row → row.Valid host

/-- An operation on a project keeps, changes or drops its rows, it adds valid rows under new ids, and
it leaves the other projects alone. -/
structure Evolves (host : Host) (project : String) (before after : MemoryStore) : Prop where
  sequence : before.sequence ≤ after.sequence
  grows : ∀ id row later, before.memories.lookup id = some row →
    after.memories.lookup id = some later → row.Grows later
  fresh : ∀ id row, after.memories.lookup id = some row →
    (before.memories.lookup id).isSome = true ∨ before.sequence < id ∧ row.Valid host
  others : ∀ id row, row.project ≠ project →
    (after.memories.lookup id = some row ↔ before.memories.lookup id = some row)

namespace Evolves

theorem refl (host : Host) (project : String) (store : MemoryStore) :
    Evolves host project store store where
  sequence := le_rfl
  grows id row later held same := by
    rw [held] at same
    rw [← Option.some.inj same]
    exact .refl row
  fresh id row held := .inl (by rw [held]; rfl)
  others id row _ := Iff.rfl

theorem trans {host : Host} {project : String} {first second third : MemoryStore}
    (one : Evolves host project first second) (two : Evolves host project second third) :
    Evolves host project first third where
  sequence := one.sequence.trans two.sequence
  grows id row later held last := by
    rcases two.fresh id later last with kept | ⟨new, -⟩
    · obtain ⟨middle, there⟩ := Option.isSome_iff_exists.mp kept
      exact (one.grows id row middle held there).trans (two.grows id middle later there last)
    · have known := first.issued id row held
      have order := one.sequence
      omega
  fresh id row held := by
    rcases two.fresh id row held with kept | ⟨new, valid⟩
    · obtain ⟨middle, there⟩ := Option.isSome_iff_exists.mp kept
      rcases one.fresh id middle there with old | ⟨new, valid⟩
      · exact .inl old
      · exact .inr ⟨new, valid.grows (two.grows id middle row there held)⟩
    · exact .inr ⟨one.sequence.trans_lt new, valid⟩
  others id row apart := (two.others id row apart).trans (one.others id row apart)

/-- An update of rows of one project. -/
theorem of_update {host : Host} {project : String} {store : MemoryStore}
    {change : Int → MemoryRow → MemoryRow} {sameProject : ∀ id row, (change id row).project = row.project}
    {sameHash : ∀ id row, (change id row).contentHash = row.contentHash}
    (grows : ∀ id (row : MemoryRow), row.Grows (change id row))
    (own : ∀ id row, store.memories.lookup id = some row → row.project ≠ project →
      change id row = row) :
    Evolves host project store (store.update change sameProject sameHash) where
  sequence := le_rfl
  grows id row later held same := by
    change (store.memories.update change).lookup id = some later at same
    rw [Table.lookup_update, held] at same
    rw [← Option.some.inj same]
    exact grows id row
  fresh id row held := by
    change (store.memories.update change).lookup id = some row at held
    rw [Table.lookup_update, Option.map_eq_some_iff] at held
    obtain ⟨old, there, -⟩ := held
    exact .inl (by rw [there]; rfl)
  others id row apart := by
    show (store.memories.update change).lookup id = some row ↔ _
    rw [Table.lookup_update]
    cases held : store.memories.lookup id with
    | none => simp
    | some old =>
        by_cases other : old.project = project
        · have changed : (change id old).project = project := (sameProject id old).trans other
          constructor
          · intro same
            rw [← Option.some.inj same] at apart
            exact absurd changed apart
          · intro same
            rw [← Option.some.inj same] at apart
            exact absurd other apart
        · rw [Option.map_some, own id old held other]

/-- A deletion of rows of one project. -/
theorem of_deleteWhere {host : Host} {project : String} {store : MemoryStore}
    {gone : Int → MemoryRow → Bool} (own : ∀ id row, row.project ≠ project → gone id row = false) :
    Evolves host project store (store.deleteWhere gone) where
  sequence := le_rfl
  grows id row later held same := by
    change (store.memories.deleteWhere gone).lookup id = some later at same
    rw [Table.lookup_deleteWhere, held, Option.filter_eq_some_iff] at same
    rw [← Option.some.inj same.1]
    exact .refl row
  fresh id row held := by
    change (store.memories.deleteWhere gone).lookup id = some row at held
    rw [Table.lookup_deleteWhere, Option.filter_eq_some_iff] at held
    exact .inl (by rw [held.1]; rfl)
  others id row apart := by
    show (store.memories.deleteWhere gone).lookup id = some row ↔ _
    rw [Table.lookup_deleteWhere, Option.filter_eq_some_iff]
    simp [own id row apart]

/-- A new row takes the next id. -/
theorem of_append {host : Host} {store : MemoryStore} {row : MemoryRow}
    (fresh : store.dedup row.project row.contentHash = none) (valid : row.Valid host) :
    Evolves host row.project store (store.append row fresh) where
  sequence := by
    show store.sequence ≤ store.sequence + 1
    omega
  grows id old later held same := by
    have known := store.issued id old held
    change (store.memories.insert (store.sequence + 1) row).lookup id = some later at same
    rw [AList.lookup_insert_ne (by omega), held] at same
    rw [← Option.some.inj same]
    exact .refl old
  fresh id later held := by
    change (store.memories.insert (store.sequence + 1) row).lookup id = some later at held
    by_cases new : id = store.sequence + 1
    · rw [new, AList.lookup_insert, Option.some.injEq] at held
      rw [← held]
      exact .inr ⟨by omega, valid⟩
    · rw [AList.lookup_insert_ne new] at held
      exact .inl (by rw [held]; rfl)
  others id other apart := by
    show (store.memories.insert (store.sequence + 1) row).lookup id = some other ↔ _
    by_cases new : id = store.sequence + 1
    · rw [new, AList.lookup_insert]
      constructor
      · intro same
        rw [← Option.some.inj same] at apart
        exact absurd rfl apart
      · intro held
        have known := store.issued _ other held
        omega
    · rw [AList.lookup_insert_ne new]

end Evolves

/-- Rows stay valid. -/
theorem Evolves.valid {host : Host} {project : String} {before after : MemoryStore}
    (evolves : Evolves host project before after) (valid : before.Valid host) : after.Valid host := by
  intro id later held
  rcases evolves.fresh id later held with kept | ⟨-, new⟩
  · obtain ⟨row, there⟩ := Option.isSome_iff_exists.mp kept
    exact (valid id row there).grows (evolves.grows id row later there held)
  · exact new

/-- The row that a content of a project has already. -/
theorem lookup_of_dedup {store : MemoryStore} {project hash : String} {id : Int} {row : MemoryRow}
    (found : store.dedup project hash = some (id, row)) :
    store.memories.lookup id = some row ∧ row.project = project ∧ row.contentHash = hash := by
  obtain ⟨held, kept⟩ := Table.lookup_of_find found
  simpa using And.intro held (by simpa using kept)

section Remember

variable (store : MemoryStore) (host : Host) (moment : MemoryMoment) (project : String)
  {content : String} (kind : Option String) (importance : Option Int) (tags : List String)

theorem remember_blank (empty : Text.trim content = "") :
    store.remember host moment project content kind importance tags =
      (.error "remember: content is empty", store) := by
  rw [remember, if_pos empty]

theorem remember_known {id : Int} {row : MemoryRow} (full : Text.trim content ≠ "")
    (known : store.dedup project (contentHash host (Text.trim content)) = some (id, row)) :
    store.remember host moment project content kind importance tags =
      (.ok (.write id true ((store.bump project id moment.now).total project)),
        store.bump project id moment.now) := by
  rw [remember, if_neg full]
  simp only [known]

theorem remember_exhausted (full : Text.trim content ≠ "")
    (unknown : store.dedup project (contentHash host (Text.trim content)) = none)
    (used : store.sequence = maxRowid) :
    store.remember host moment project content kind importance tags =
      (.error "insert: database or disk is full", store) := by
  have failed : store.insert (newRow host moment project (Text.trim content) kind importance tags) =
      .error "database or disk is full" := by
    rw [insert, dif_pos (by exact unknown), if_pos used]
  rw [remember, if_neg full]
  simp only [unknown, failed]
  rfl

theorem remember_new (full : Text.trim content ≠ "")
    (unknown : store.dedup project (contentHash host (Text.trim content)) = none)
    (left : store.sequence ≠ maxRowid) :
    let after := store.append
      (newRow host moment project (Text.trim content) kind importance tags) unknown
    store.remember host moment project content kind importance tags =
      (.ok (.write (store.sequence + 1) false (after.total project)), after) := by
  have stored : store.insert (newRow host moment project (Text.trim content) kind importance tags) =
      .ok (store.sequence + 1, store.append
        (newRow host moment project (Text.trim content) kind importance tags) unknown) := by
    rw [insert, dif_pos (by exact unknown), if_neg left]
  rw [remember, if_neg full]
  simp only [unknown, stored]

theorem newRow_valid : (newRow host moment project content kind importance tags).Valid host := by
  refine ⟨rfl, le_max_left _ _, ?_⟩
  show max 1 (min 5 _) ≤ 5
  omega

theorem bump_evolves (id now : Int) : Evolves host project store (store.bump project id now) := by
  apply Evolves.of_update
  · intro other row
    split
    · exact row.bump_grows now
    · exact .refl row
  · intro other row _ apart
    rw [if_neg (by simp [apart])]

theorem remember_evolves (content : String) : Evolves host project store
    (store.remember host moment project content kind importance tags).2 := by
  by_cases empty : Text.trim content = ""
  · rw [store.remember_blank host moment project kind importance tags empty]
    exact .refl host project store
  · cases known : store.dedup project (contentHash host (Text.trim content)) with
    | some found =>
        rw [store.remember_known host moment project kind importance tags empty known]
        exact store.bump_evolves host project found.1 moment.now
    | none =>
        by_cases used : store.sequence = maxRowid
        · rw [store.remember_exhausted host moment project kind importance tags empty known used]
          exact .refl host project store
        · rw [store.remember_new host moment project kind importance tags empty known used]
          exact .of_append known (newRow_valid host moment project kind importance tags)

end Remember

/-- A recalled entry belongs to a row of the project. -/
theorem mem_recalled {store : MemoryStore} {moment : MemoryMoment} {project : String}
    {query : Option String} {limit : Option Int} {entry : MemoryEntry}
    (member : entry ∈ store.recalled moment project query limit) :
    ∃ row, store.memories.lookup entry.id = some row ∧ row.project = project ∧
      row.toEntry entry.id = entry := by
  obtain ⟨⟨id, row⟩, taken, rfl⟩ := List.mem_map.mp member
  obtain ⟨held, kept⟩ := (Table.mem_select _ _ _ _ _).mp (List.mem_of_mem_take taken)
  rw [Bool.and_eq_true, beq_iff_eq] at kept
  exact ⟨row, held, kept.1, rfl⟩

/-- Touching entries of one project changes the hits of its rows. -/
theorem foldl_touch_evolves {host : Host} {project : String} (entries : List MemoryEntry)
    (store : MemoryStore)
    (own : ∀ entry ∈ entries, ∀ row, store.memories.lookup entry.id = some row →
      row.project = project) :
    Evolves host project store (entries.foldl touch store) := by
  induction entries generalizing store with
  | nil => exact .refl host project store
  | cons entry rest ih =>
      obtain ⟨mine, others⟩ := List.forall_mem_cons.mp own
      have first : Evolves host project store (store.touch entry) := by
        apply Evolves.of_update
        · intro id row
          split
          · exact row.touch_grows
          · exact .refl row
        · intro id row held apart
          rw [if_neg]
          rintro rfl
          exact apart (mine row held)
      rw [List.foldl_cons]
      refine first.trans (ih (store.touch entry) ?_)
      intro other member later held
      change (store.memories.update _).lookup other.id = some later at held
      rw [Table.lookup_update, Option.map_eq_some_iff] at held
      obtain ⟨row, there, rfl⟩ := held
      have project := others other member row there
      split <;> exact project

theorem recall_evolves (store : MemoryStore) (host : Host) (moment : MemoryMoment)
    (project : String) (query : Option String) (limit : Option Int) :
    Evolves host project store (store.recall moment project query limit).2 := by
  apply foldl_touch_evolves
  intro entry member row held
  obtain ⟨known, there, project, -⟩ := mem_recalled member
  rw [there, Option.some.injEq] at held
  rw [← held, project]

theorem forget_evolves (store : MemoryStore) (host : Host) (project : String) (id : Option Int)
    (all : Bool) : Evolves host project store (store.forget project id all).2 := by
  cases all with
  | true =>
      apply Evolves.of_deleteWhere
      intro other row apart
      simp [ofProject, apart]
  | false =>
      cases id with
      | none => exact .refl host project store
      | some id =>
          apply Evolves.of_deleteWhere
          intro other row apart
          simp [apart]

/-- Every operation evolves the store within its own project. -/
theorem execute_evolves (store : MemoryStore) (host : Host) (moment : MemoryMoment)
    (op : MemoryOp) : Evolves host op.project store (store.execute host moment op).2 := by
  cases op with
  | remember project content kind importance tags => exact store.remember_evolves host moment ..
  | «recall» project query limit => exact store.recall_evolves host moment ..
  | forget project id all => exact store.forget_evolves host ..
  | reflect project summary tags => exact store.remember_evolves host moment ..
  | stats project => exact .refl host project store

end MemoryStore

end Daemon
