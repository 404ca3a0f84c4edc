import SynthHiresBridge.Daemon.Notebook
import SynthHiresBridge.Proof.Memory
import SynthHiresBridge.Transition.Run

namespace Daemon

def MemoryRow.toNote (row : MemoryRow) (id : Int) : Note :=
  ⟨id, row.kind, row.importance, row.tags, row.createdAt, row.updatedAt, row.hits⟩

namespace MemoryStore

/-- The row of a project with a content. -/
def find (store : MemoryStore) (project content : String) : Option (Int × MemoryRow) :=
  store.memories.find fun _ row => row.project == project && row.content == content

/-- The notebook that a store stands for. -/
def notebook (store : MemoryStore) : Notebook where
  notes project content := (store.find project content).map fun entry => entry.2.toNote entry.1
  last := store.sequence

section Rows

variable {host : Host} {store : MemoryStore} (valid : store.Valid host)

include valid

/-- A project has one row for each content. -/
theorem Valid.same_id {id other : Int} {row held : MemoryRow}
    (one : store.memories.lookup id = some row) (two : store.memories.lookup other = some held)
    (project : row.project = held.project) (content : row.content = held.content) : id = other := by
  apply store.unique id row other held one two project
  rw [(valid id row one).hashed, (valid other held two).hashed, content]

theorem Valid.find_iff (project content : String) (id : Int) (row : MemoryRow) :
    store.find project content = some (id, row) ↔
      store.memories.lookup id = some row ∧ row.project = project ∧ row.content = content := by
  constructor
  · intro found
    obtain ⟨held, kept⟩ := Table.lookup_of_find found
    rw [Bool.and_eq_true, beq_iff_eq, beq_iff_eq] at kept
    exact ⟨held, kept⟩
  · rintro ⟨held, rfl, rfl⟩
    cases found : store.find row.project row.content with
    | none =>
        have missed := (Table.find_eq_none_iff _ _).mp found id row held
        simp at missed
    | some entry =>
        obtain ⟨other, later⟩ := entry
        obtain ⟨there, kept⟩ := Table.lookup_of_find found
        rw [Bool.and_eq_true, beq_iff_eq, beq_iff_eq] at kept
        obtain rfl := valid.same_id there held kept.1 kept.2
        rw [held] at there
        rw [Option.some.inj there]

theorem Valid.notes_iff (project content : String) (note : Note) :
    store.notebook.notes project content = some note ↔ ∃ id row,
      store.memories.lookup id = some row ∧ row.project = project ∧ row.content = content ∧
        row.toNote id = note := by
  show (store.find project content).map _ = some note ↔ _
  rw [Option.map_eq_some_iff]
  constructor
  · rintro ⟨⟨id, row⟩, found, same⟩
    obtain ⟨held, kept, own⟩ := (valid.find_iff project content id row).mp found
    exact ⟨id, row, held, kept, own, same⟩
  · rintro ⟨id, row, held, kept, own, same⟩
    exact ⟨(id, row), (valid.find_iff project content id row).mpr ⟨held, kept, own⟩, same⟩

/-- Rows of a project are counted as notes. -/
theorem Valid.count_eq (project : String) (holds : Note → Prop) (keep : Int → MemoryRow → Bool)
    (same : ∀ id row, keep id row = true ↔ row.project = project ∧ holds (row.toNote id)) :
    store.memories.count keep = (store.notebook.contents project holds).ncard := by
  rw [Table.count_eq_ncard _ _ fun _ row => row.content]
  · congr 1
    ext content
    simp only [Set.mem_ofPred_eq, Notebook.contents, valid.notes_iff]
    constructor
    · rintro ⟨id, row, held, kept, own⟩
      obtain ⟨there, meets⟩ := (same id row).mp kept
      exact ⟨_, ⟨id, row, held, there, own, rfl⟩, meets⟩
    · rintro ⟨note, ⟨id, row, held, there, own, rfl⟩, meets⟩
      exact ⟨id, row, held, (same id row).mpr ⟨there, meets⟩, own⟩
  · intro id row other later held kept there others content
    exact valid.same_id held there
      (((same id row).mp kept).1.trans ((same other later).mp others).1.symm) content

theorem Valid.total_eq (project : String) : store.total project = store.notebook.total project :=
  valid.count_eq project _ _ fun _ row => by simp [ofProject]

theorem Valid.find_of_dedup_none {project content : String}
    (missing : store.dedup project (contentHash host content) = none) :
    store.find project content = none := by
  cases found : store.find project content with
  | none => rfl
  | some entry =>
      obtain ⟨id, row⟩ := entry
      obtain ⟨held, own, same⟩ := (valid.find_iff project content id row).mp found
      have missed := (Table.find_eq_none_iff _ _).mp missing id row held
      simp [own, (valid id row held).hashed, same] at missed

/-- The content hash finds the note of a content. -/
theorem Valid.find_of_dedup (injective : Function.Injective host.sha256) {project content : String}
    {id : Int} {row : MemoryRow}
    (found : store.dedup project (contentHash host content) = some (id, row)) :
    store.find project content = some (id, row) := by
  obtain ⟨held, own, hash⟩ := lookup_of_dedup found
  rw [(valid id row held).hashed] at hash
  exact (valid.find_iff project content id row).mpr
    ⟨held, own, Text.encode_injective (injective hash)⟩

/-- A bump changes the note of one content. -/
theorem Valid.bump_notebook {project content : String} {id : Int} {row : MemoryRow}
    (found : store.find project content = some (id, row)) (now : Int) :
    (store.bump project id now).notebook =
      store.notebook.put project content ((row.toNote id).bump now) := by
  apply Notebook.ext
  · funext other text
    have changed : (store.bump project id now).find other text =
        (store.find other text).map fun entry => (entry.1,
          if entry.1 = id ∧ entry.2.project = project then entry.2.bump now else entry.2) := by
      apply Table.find_update store.memories
        (fun key row => if key = id ∧ row.project = project then row.bump now else row)
      intro key row
      split <;> rfl
    rw [Notebook.put_notes]
    show ((store.bump project id now).find other text).map _ = _
    rw [changed]
    by_cases own : other = project ∧ text = content
    · obtain ⟨rfl, rfl⟩ := own
      obtain ⟨-, kept, -⟩ := (valid.find_iff _ _ _ _).mp found
      rw [if_pos ⟨rfl, rfl⟩, found]
      simp only [Option.map_some, kept, and_self, if_true]
      rfl
    · rw [if_neg own]
      show _ = (store.find other text).map _
      cases there : store.find other text with
      | none => rfl
      | some entry =>
          obtain ⟨key, later⟩ := entry
          obtain ⟨held, kept, same⟩ := (valid.find_iff _ _ _ _).mp there
          have apart : ¬ (key = id ∧ later.project = project) := by
            rintro ⟨rfl, mine⟩
            obtain ⟨here, -, content⟩ := (valid.find_iff _ _ _ _).mp found
            rw [here, Option.some.injEq] at held
            subst held
            exact own ⟨kept.symm.trans mine, same.symm.trans content⟩
          simp only [Option.map_some, if_neg apart]
  · rfl

/-- A new row is a new note. -/
theorem Valid.append_notes {row : MemoryRow} (own : row.Valid host)
    (fresh : store.dedup row.project row.contentHash = none) :
    (store.append row fresh).notebook.notes = (store.notebook.put row.project row.content
      (row.toNote (store.sequence + 1))).notes := by
  have after : (store.append row fresh).Valid host := (Evolves.of_append fresh own).valid valid
  have missing : store.find row.project row.content = none := by
    apply valid.find_of_dedup_none
    rwa [← own.hashed]
  funext project content
  rw [Notebook.put_notes]
  split
  · rename_i same
    obtain ⟨rfl, rfl⟩ := same
    rw [after.notes_iff]
    exact ⟨store.sequence + 1, row, AList.lookup_insert _, rfl, rfl, rfl⟩
  · rename_i other
    apply Option.ext
    intro note
    rw [after.notes_iff, valid.notes_iff]
    constructor
    · rintro ⟨id, later, held, rfl, rfl, same⟩
      change (store.memories.insert (store.sequence + 1) row).lookup id = some later at held
      by_cases new : id = store.sequence + 1
      · rw [new, AList.lookup_insert, Option.some.injEq] at held
        subst held
        exact absurd ⟨rfl, rfl⟩ other
      · rw [AList.lookup_insert_ne new] at held
        exact ⟨id, later, held, rfl, rfl, same⟩
    · rintro ⟨id, later, held, kept, same, own⟩
      have known := store.issued id later held
      refine ⟨id, later, ?_, kept, same, own⟩
      show (store.memories.insert (store.sequence + 1) row).lookup id = some later
      rwa [AList.lookup_insert_ne (by omega)]

/-- Deleted rows are deleted notes. -/
theorem Valid.deleteWhere_notes (project : String) {gone : Int → MemoryRow → Bool}
    (own : ∀ id row, row.project ≠ project → gone id row = false) (other content : String) :
    (store.deleteWhere gone).notebook.notes other content =
      ((store.find other content).filter fun entry => !gone entry.1 entry.2).map fun entry =>
        entry.2.toNote entry.1 := by
  have evolves : Evolves host project store (store.deleteWhere gone) := .of_deleteWhere own
  have after := evolves.valid valid
  apply Option.ext
  intro note
  rw [after.notes_iff, Option.map_eq_some_iff]
  constructor
  · rintro ⟨id, row, held, kept, same, mine⟩
    change (store.memories.deleteWhere gone).lookup id = some row at held
    rw [Table.lookup_deleteWhere, Option.filter_eq_some_iff] at held
    refine ⟨(id, row), ?_, mine⟩
    rw [Option.filter_eq_some_iff, valid.find_iff]
    exact ⟨⟨held.1, kept, same⟩, held.2⟩
  · rintro ⟨⟨id, row⟩, found, mine⟩
    rw [Option.filter_eq_some_iff, valid.find_iff] at found
    obtain ⟨⟨held, kept, same⟩, stays⟩ := found
    refine ⟨id, row, ?_, kept, same, mine⟩
    show (store.memories.deleteWhere gone).lookup id = some row
    rw [Table.lookup_deleteWhere, Option.filter_eq_some_iff]
    exact ⟨held, stays⟩

/-- Rows of one project that a condition on their notes names are deleted from its notes. -/
theorem Valid.deleteWhere_notebook (project : String) (dropped : Note → Bool)
    {gone : Int → MemoryRow → Bool}
    (named : ∀ id row, gone id row = (row.project == project && dropped (row.toNote id))) :
    (store.deleteWhere gone).notebook = store.notebook.change project fun content =>
      (store.notebook.notes project content).filter fun note => !dropped note := by
  have own : ∀ id row, row.project ≠ project → gone id row = false := by
    intro id row apart
    simp [named, apart]
  apply Notebook.ext
  · funext other text
    rw [valid.deleteWhere_notes project own, Notebook.change_notes]
    show _ = if other = project then ((store.find project text).map _).filter _
      else (store.find other text).map _
    by_cases same : other = project
    · subst same
      rw [if_pos rfl]
      cases found : store.find other text with
      | none => rfl
      | some entry =>
          obtain ⟨-, kept, -⟩ := (valid.find_iff _ _ _ _).mp found
          cases mine : dropped (entry.2.toNote entry.1) with
          | true => simp [Option.filter_some, named, kept, mine]
          | false => simp [Option.filter_some, named, mine]
    · rw [if_neg same]
      cases found : store.find other text with
      | none => rfl
      | some entry =>
          obtain ⟨-, kept, -⟩ := (valid.find_iff _ _ _ _).mp found
          simp [Option.filter_some, named, kept, same]
  · rfl

end Rows

/-- Touching distinct entries counts one hit for each of them. -/
theorem foldl_touch (entries : List MemoryEntry) (store : MemoryStore)
    (distinct : (entries.map MemoryEntry.id).Nodup) :
    (entries.foldl touch store).memories = store.memories.update fun id row =>
      if id ∈ entries.map MemoryEntry.id then row.touch else row := by
  induction entries generalizing store with
  | nil =>
      simp only [List.map_nil, List.not_mem_nil, if_false, Table.update_self]
      rfl
  | cons entry rest ih =>
      rw [List.map_cons, List.nodup_cons] at distinct
      have first : (store.touch entry).memories = store.memories.update fun id row =>
          if id = entry.id then row.touch else row := rfl
      rw [List.foldl_cons, ih _ distinct.2, first, Table.update_update]
      congr 1
      funext id row
      by_cases own : id = entry.id
      · subst own
        simp [distinct.1]
      · simp [own]

theorem foldl_touch_sequence (entries : List MemoryEntry) (store : MemoryStore) :
    (entries.foldl touch store).sequence = store.sequence := by
  induction entries generalizing store with
  | nil => rfl
  | cons entry rest ih =>
      rw [List.foldl_cons, ih]
      rfl

theorem rankedBefore_total (first second : Int × MemoryRow) :
    rankedBefore first second = true ∨ rankedBefore second first = true := by
  simp only [rankedBefore, decide_eq_true_eq]
  omega

theorem rankedBefore_trans (first second third : Int × MemoryRow)
    (one : rankedBefore first second = true) (two : rankedBefore second third = true) :
    rankedBefore first third = true := by
  simp only [rankedBefore, decide_eq_true_eq] at one two ⊢
  omega

/-- The rows that a recall finds, the best ones first. -/
def rankedRows (store : MemoryStore) (moment : MemoryMoment) (project : String)
    (query : Option String) : List (Int × MemoryRow) :=
  store.memories.select (fun _ row => row.project == project &&
    (recallStrategy moment query).keeps moment row.content) rankedBefore

section Recall

variable {host : Host} {store : MemoryStore} (valid : store.Valid host) (moment : MemoryMoment)
  (project : String) (query : Option String) (limit : Option Int)

theorem mem_rankedRows (store : MemoryStore) (id : Int) (row : MemoryRow) :
    (id, row) ∈ store.rankedRows moment project query ↔ store.memories.lookup id = some row ∧
      row.project = project ∧ (recallStrategy moment query).keeps moment row.content = true := by
  rw [rankedRows, Table.mem_select, Bool.and_eq_true, beq_iff_eq]

theorem rankedRows_sorted (store : MemoryStore) :
    (store.rankedRows moment project query).Pairwise fun first second =>
      rankedBefore first second = true := by
  have : Std.Total fun first second => rankedBefore first second = true := ⟨rankedBefore_total⟩
  have : IsTrans (Int × MemoryRow) fun first second => rankedBefore first second = true :=
    ⟨rankedBefore_trans⟩
  exact List.pairwise_insertionSort _ _

theorem recalled_eq (store : MemoryStore) : store.recalled moment project query limit =
    ((store.rankedRows moment project query).take (recallLimit limit)).map fun entry =>
      entry.2.toEntry entry.1 := rfl

/-- A recall counts a hit for each row that it returns. -/
theorem recall_find (store : MemoryStore) (other content : String) :
    (store.recall moment project query limit).2.find other content =
      (store.find other content).map fun entry => (entry.1,
        if entry.1 ∈ (store.recalled moment project query limit).map MemoryEntry.id
        then entry.2.touch else entry.2) := by
  have distinct : ((store.recalled moment project query limit).map MemoryEntry.id).Nodup := by
    rw [recalled_eq, List.map_map]
    exact (Table.select_nodup _ _ _).sublist ((List.take_sublist _ _).map Prod.fst)
  show Table.find (List.foldl touch store _).memories _ = _
  rw [foldl_touch _ _ distinct]
  apply Table.find_update store.memories
  intro key row
  split <;> rfl

/-- The notes that a recall finds. -/
def rankedNotes (store : MemoryStore) : List (String × Note) :=
  (store.rankedRows moment project query).map fun entry =>
    (entry.2.content, entry.2.toNote entry.1)

include valid

theorem Valid.rankedNotes_nodup :
    ((store.rankedNotes moment project query).map Prod.fst).Nodup := by
  rw [rankedNotes, List.map_map]
  apply List.Nodup.map_on
  · rintro ⟨id, row⟩ one ⟨other, later⟩ two content
    obtain ⟨held, own, -⟩ := (mem_rankedRows moment project query store id row).mp one
    obtain ⟨there, kept, -⟩ := (mem_rankedRows moment project query store other later).mp two
    obtain rfl := valid.same_id held there (own.trans kept.symm) content
    rw [held, Option.some.injEq] at there
    rw [there]
  · exact (Table.select_nodup _ _ _).of_map

theorem Valid.mem_rankedNotes (content : String) (note : Note) :
    (content, note) ∈ store.rankedNotes moment project query ↔
      store.notebook.notes project content = some note ∧
        (recallStrategy moment query).keeps moment content = true := by
  rw [rankedNotes, List.mem_map, valid.notes_iff]
  constructor
  · rintro ⟨⟨id, row⟩, member, same⟩
    obtain ⟨held, own, kept⟩ := (mem_rankedRows moment project query store id row).mp member
    cases same
    exact ⟨⟨id, row, held, own, rfl, rfl⟩, kept⟩
  · rintro ⟨⟨id, row, held, own, rfl, rfl⟩, kept⟩
    exact ⟨(id, row), (mem_rankedRows moment project query store id row).mpr ⟨held, own, kept⟩, rfl⟩

/-- A recalled row is one of the project whose content is among the recalled ones. -/
theorem Valid.mem_recalled_iff {other text : String} {id : Int} {row : MemoryRow}
    (found : store.find other text = some (id, row)) :
    id ∈ (store.recalled moment project query limit).map MemoryEntry.id ↔ other = project ∧
      text ∈ ((store.rankedNotes moment project query).take (recallLimit limit)).map Prod.fst := by
  obtain ⟨held, rfl, rfl⟩ := (valid.find_iff other text id row).mp found
  rw [recalled_eq, rankedNotes, ← List.map_take, List.map_map, List.map_map, List.mem_map,
    List.mem_map]
  constructor
  · rintro ⟨⟨key, later⟩, member, same⟩
    obtain rfl : key = id := same
    obtain ⟨there, own, -⟩ :=
      (mem_rankedRows moment project query store key later).mp (List.mem_of_mem_take member)
    rw [held, Option.some.injEq] at there
    subst there
    exact ⟨own, (key, row), member, rfl⟩
  · rintro ⟨own, ⟨key, later⟩, member, same⟩
    obtain ⟨there, kept, -⟩ :=
      (mem_rankedRows moment project query store key later).mp (List.mem_of_mem_take member)
    exact ⟨(key, later), member, valid.same_id there held (kept.trans own.symm) same⟩

/-- A recall touches the notes that it returns. -/
theorem Valid.recall_notebook :
    (store.recall moment project query limit).2.notebook =
      store.notebook.change project fun content => (store.notebook.notes project content).map fun note =>
        if content ∈ ((store.rankedNotes moment project query).take (recallLimit limit)).map Prod.fst
        then note.touch else note := by
  apply Notebook.ext
  · funext other text
    rw [Notebook.change_notes]
    show ((store.recall moment project query limit).2.find other text).map _ = _
    rw [recall_find]
    show _ = if other = project then ((store.find project text).map _).map _
      else (store.find other text).map _
    cases found : store.find other text with
    | none =>
        split
        · rename_i own
          rw [← own, found]
          rfl
        · rfl
    | some entry =>
        obtain ⟨id, row⟩ := entry
        have touched := valid.mem_recalled_iff moment project query limit found
        split
        · rename_i own
          subst own
          rw [found]
          simp only [Option.map_some, touched, true_and]
          split <;> rfl
        · rename_i apart
          simp only [Option.map_some, touched, apart, false_and, if_false]
  · exact foldl_touch_sequence _ store

/-- A recall answers from the notes. -/
theorem Valid.recall_step : store.notebook.Step moment (.recall project query limit)
    (store.recall moment project query limit).1
    (store.recall moment project query limit).2.notebook := by
  have after : (store.recall moment project query limit).2.Valid host :=
    (store.recall_evolves host moment project query limit).valid valid
  have answer : (store.recall moment project query limit).1 = .ok (.recall
      (((store.rankedNotes moment project query).take (recallLimit limit)).map fun entry =>
        entry.2.toEntry entry.1)
      ((store.recall moment project query limit).2.notebook.total project)) := by
    rw [← after.total_eq, rankedNotes, ← List.map_take, List.map_map]
    rfl
  rw [answer]
  apply Notebook.Step.recall
  · exact valid.rankedNotes_nodup moment project query
  · exact valid.mem_rankedNotes moment project query
  · rw [rankedNotes, List.pairwise_map]
    apply (rankedRows_sorted moment project query store).imp
    intro first second before
    rw [rankedBefore, decide_eq_true_eq] at before
    exact before
  · exact valid.recall_notebook moment project query limit

end Recall

section Execute

variable {host : Host} {store : MemoryStore} (valid : store.Valid host) (moment : MemoryMoment)

include valid

theorem Valid.remember_step (injective : Function.Injective host.sha256) (project content : String)
    (kind : Option String) (importance : Option Int) (tags : List String) :
    store.notebook.Step moment (.remember project content kind importance tags)
      (store.remember host moment project content kind importance tags).1
      (store.remember host moment project content kind importance tags).2.notebook := by
  have after := (store.remember_evolves host moment project kind importance tags content).valid valid
  by_cases empty : Text.trim content = ""
  · rw [store.remember_blank host moment project kind importance tags empty]
    exact .blank project content kind importance tags empty
  · cases known : store.dedup project (contentHash host (Text.trim content)) with
    | some found =>
        obtain ⟨id, row⟩ := found
        have there := valid.find_of_dedup injective known
        rw [store.remember_known host moment project kind importance tags empty known] at after ⊢
        dsimp only at after ⊢
        rw [after.total_eq]
        apply Notebook.Step.again project content kind importance tags (row.toNote id) empty
        · show (store.find _ _).map _ = _
          rw [there]
          rfl
        · exact valid.bump_notebook there moment.now
    | none =>
        have missing : store.notebook.notes project (Text.trim content) = none := by
          show (store.find _ _).map _ = _
          rw [valid.find_of_dedup_none known]
          rfl
        by_cases used : store.sequence = maxRowid
        · rw [store.remember_exhausted host moment project kind importance tags empty known used]
          exact .exhausted project content kind importance tags empty missing used
        · rw [store.remember_new host moment project kind importance tags empty known used] at after ⊢
          dsimp only at after ⊢
          rw [after.total_eq]
          exact .first project content kind importance tags empty missing used
            (store.append (newRow host moment project _ kind importance tags) known).notebook rfl
            (valid.append_notes (newRow_valid host moment project kind importance tags) known)

theorem Valid.forget_step (project : String) (id : Option Int) (all : Bool) :
    store.notebook.Step moment (.forget project id all) (store.forget project id all).1
      (store.forget project id all).2.notebook := by
  cases all with
  | true =>
      have after : (store.deleteWhere (ofProject project)).notebook =
          store.notebook.change project fun _ => none := by
        rw [valid.deleteWhere_notebook project (fun _ => true) fun id row => by simp [ofProject]]
        simp
      show store.notebook.Step moment _ (.ok (.forget (store.total project)))
        (store.deleteWhere (ofProject project)).notebook
      rw [valid.total_eq, after]
      exact .forgetAll project id
  | false =>
      cases id with
      | none => exact .forgetNothing project
      | some id =>
          have after : (store.deleteWhere fun other row =>
                other == id && row.project == project).notebook =
              store.notebook.change project fun content =>
                (store.notebook.notes project content).filter fun note => note.id ≠ id := by
            have named : ∀ other (row : MemoryRow), (other == id && row.project == project) =
                (row.project == project && decide ((row.toNote other).id = id)) :=
              fun _ _ => Bool.and_comm _ _
            rw [valid.deleteWhere_notebook project (fun note => note.id = id) named]
            simp
          have deleted := valid.count_eq project (fun note => note.id = id)
            (fun other row => other == id && row.project == project) fun other row => by
              simp [MemoryRow.toNote, and_comm]
          show store.notebook.Step moment _ (.ok (.forget (store.memories.count _)))
            (store.deleteWhere _).notebook
          rw [deleted, after]
          exact .forgetOne project id

/-- Every operation on the store is one on its notebook. -/
theorem Valid.execute_step (injective : Function.Injective host.sha256) (op : MemoryOp) :
    store.notebook.Step moment op (store.execute host moment op).1
      (store.execute host moment op).2.notebook := by
  cases op with
  | remember project content kind importance tags =>
      exact valid.remember_step moment injective project content kind importance tags
  | «recall» project query limit => exact valid.recall_step moment project query limit
  | forget project id all => exact valid.forget_step moment project id all
  | reflect project summary tags =>
      exact .reflect project summary tags _ _
        (valid.remember_step moment injective project summary (some "reflection") (some 4) tags)
  | stats project =>
      have reflections := valid.count_eq project (fun note => note.kind = "reflection")
        (fun _ row => row.project == project && row.kind == "reflection") fun id row => by
          simp [MemoryRow.toNote]
      show store.notebook.Step moment _ (.ok (.stats (store.total project) (store.memories.count _))) _
      rw [reflections, valid.total_eq]
      exact .stats project

end Execute

end MemoryStore

end Daemon
