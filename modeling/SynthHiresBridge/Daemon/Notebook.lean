import Mathlib.Data.Set.Card
import Mathlib.Logic.Function.Basic
import SynthHiresBridge.Daemon.MemoryStore

namespace Daemon

/-- A notebook keeps a note for a content of a project. -/
structure Note where
  id : Int
  kind : String
  importance : Int
  tags : String
  createdAt : Int
  updatedAt : Int
  hits : Int

namespace Note

def toEntry (content : String) (note : Note) : MemoryEntry :=
  ⟨note.id, note.kind, content, note.importance, parseTags (some note.tags), note.createdAt,
    note.updatedAt, note.hits⟩

def bump (note : Note) (now : Int) : Note :=
  { note with importance := min 5 (note.importance + 1), updatedAt := now, hits := note.hits + 1 }

def touch (note : Note) : Note := { note with hits := note.hits + 1 }

def rank (note : Note) : Int := note.importance * 10 + note.updatedAt.tdiv 86400

/-- A note comes before the ones with a lower rank, and the later one comes first among equals. -/
def Before (first second : Note) : Prop :=
  second.rank < first.rank ∨ second.rank = first.rank ∧
    (second.updatedAt < first.updatedAt ∨
      second.updatedAt = first.updatedAt ∧ second.id ≤ first.id)

end Note

/-- A notebook maps each project and each trimmed content to a note, and it has given out the ids up
to its last one. -/
@[ext] structure Notebook where
  notes : String → String → Option Note
  last : Int

namespace Notebook

/-- The contents of a project whose notes meet a condition. -/
def contents (book : Notebook) (project : String) (holds : Note → Prop) : Set String :=
  {content | ∃ note, book.notes project content = some note ∧ holds note}

noncomputable def total (book : Notebook) (project : String) : Nat :=
  (book.contents project fun _ => True).ncard

/-- The notes of one project change. -/
def change (book : Notebook) (project : String) (next : String → Option Note) : Notebook :=
  { book with notes := Function.update book.notes project next }

/-- One note of a project is set. -/
def put (book : Notebook) (project content : String) (note : Note) : Notebook :=
  book.change project (Function.update (book.notes project) content (some note))

theorem change_notes (book : Notebook) (project : String) (next : String → Option Note)
    (other content : String) : (book.change project next).notes other content =
      if other = project then next content else book.notes other content := by
  show Function.update book.notes project next other content = _
  rw [Function.update_apply]
  split <;> rfl

theorem put_notes (book : Notebook) (project content : String) (note : Note)
    (other text : String) : (book.put project content note).notes other text =
      if other = project ∧ text = content then some note else book.notes other text := by
  rw [put, change_notes, Function.update_apply]
  by_cases own : other = project
  · subst own
    simp
  · simp [own]

/-- An operation answers from the notes and changes those of its own project only. -/
inductive Step (book : Notebook) (moment : MemoryMoment) :
    MemoryOp → Except String MemoryResult → Notebook → Prop where
  | blank (project content : String) (kind : Option String) (importance : Option Int)
      (tags : List String) (empty : Text.trim content = "") :
      Step book moment (.remember project content kind importance tags)
        (.error "remember: content is empty") book
  | again (project content : String) (kind : Option String) (importance : Option Int)
      (tags : List String) (note : Note) (full : Text.trim content ≠ "")
      (known : book.notes project (Text.trim content) = some note) (after : Notebook)
      (bumped : after = book.put project (Text.trim content) (note.bump moment.now)) :
      Step book moment (.remember project content kind importance tags)
        (.ok (.write note.id true (after.total project))) after
  | exhausted (project content : String) (kind : Option String) (importance : Option Int)
      (tags : List String) (full : Text.trim content ≠ "")
      (unknown : book.notes project (Text.trim content) = none) (used : book.last = maxRowid) :
      Step book moment (.remember project content kind importance tags)
        (.error "insert: database or disk is full") book
  | first (project content : String) (kind : Option String) (importance : Option Int)
      (tags : List String) (full : Text.trim content ≠ "")
      (unknown : book.notes project (Text.trim content) = none) (left : book.last ≠ maxRowid)
      (after : Notebook) (issued : after.last = book.last + 1)
      (written : after.notes = (book.put project (Text.trim content) ⟨after.last,
        (kind.filter fun kind => Text.trim kind ≠ "").getD "fact", max 1 (min 5 (importance.getD 3)),
        ",".intercalate tags, moment.now, moment.now, 0⟩).notes) :
      Step book moment (.remember project content kind importance tags)
        (.ok (.write after.last false (after.total project))) after
  | recall (project : String) (query : Option String) (limit : Option Int)
      (ranked : List (String × Note)) (distinct : (ranked.map Prod.fst).Nodup)
      (matching : ∀ content note, (content, note) ∈ ranked ↔
        book.notes project content = some note ∧
          (recallStrategy moment query).keeps moment content = true)
      (sorted : ranked.Pairwise fun first second => first.2.Before second.2) (after : Notebook)
      (touched : after = book.change project fun content =>
        (book.notes project content).map fun note =>
          if content ∈ (ranked.take (recallLimit limit)).map Prod.fst then note.touch else note) :
      Step book moment (.recall project query limit)
        (.ok (.recall ((ranked.take (recallLimit limit)).map fun entry => entry.2.toEntry entry.1)
          (after.total project))) after
  | forgetAll (project : String) (id : Option Int) :
      Step book moment (.forget project id true) (.ok (.forget (book.total project)))
        (book.change project fun _ => none)
  | forgetOne (project : String) (id : Int) :
      Step book moment (.forget project (some id) false)
        (.ok (.forget (book.contents project fun note => note.id = id).ncard))
        (book.change project fun content =>
          (book.notes project content).filter fun note => note.id ≠ id)
  | forgetNothing (project : String) :
      Step book moment (.forget project none false) (.error "forget: needs id or all=true") book
  | reflect (project summary : String) (tags : List String) (answer : Except String MemoryResult)
      (after : Notebook)
      (same : Step book moment
        (.remember project summary (some "reflection") (some 4) tags) answer after) :
      Step book moment (.reflect project summary tags) answer after
  | stats (project : String) :
      Step book moment (.stats project)
        (.ok (.stats (book.total project)
          (book.contents project fun note => note.kind = "reflection").ncard)) book

end Notebook

end Daemon
