import SynthHiresBridge.Proof.MemoryRefinement

namespace Daemon

open Transition

structure MemoryCall where
  moment : MemoryMoment
  op : MemoryOp

/-- The total that an answer gives for its project. -/
def MemoryResult.total : MemoryResult → Option Nat
  | .write _ _ total => some total
  | .recall _ total => some total
  | .forget _ => none
  | .stats total _ => some total

def Notebook.empty : Notebook := ⟨fun _ _ => none, 0⟩

/-- A step answers with the total of the notebook it leaves. -/
theorem Notebook.Step.total_eq {book after : Notebook} {moment : MemoryMoment} {op : MemoryOp}
    {answer : Except String MemoryResult} (step : book.Step moment op answer after)
    {result : MemoryResult} (success : answer = .ok result) {total : Nat}
    (given : result.total = some total) : total = after.total op.project := by
  induction step with
  | reflect project summary tags answer after same ih => exact ih success
  | again | first | «recall» | stats =>
      cases success
      exact (Option.some.inj given).symm
  | blank | exhausted | forgetNothing => cases success
  | forgetAll | forgetOne =>
      cases success
      cases given

namespace MemoryStore

def next (host : Host) (store : MemoryStore) (call : MemoryCall) : MemoryStore :=
  (store.execute host call.moment call.op).2

/-- The store after a run of operations on an empty one. -/
def after (host : Host) (calls : List MemoryCall) : MemoryStore := run (next host) empty calls

theorem after_concat (host : Host) (calls : List MemoryCall) (call : MemoryCall) :
    after host (calls ++ [call]) = (after host calls).next host call := run_concat ..

theorem after_evolves (host : Host) (calls : List MemoryCall) (call : MemoryCall) :
    Evolves host call.op.project (after host calls) (after host (calls ++ [call])) := by
  rw [after_concat]
  exact execute_evolves _ host call.moment call.op

/-- All rows of a run are valid. -/
theorem after_valid (host : Host) (calls : List MemoryCall) : (after host calls).Valid host := by
  induction calls using List.reverseRecOn with
  | nil =>
      intro id row held
      cases held
  | append_singleton calls call ih => exact (after_evolves host calls call).valid ih

/-- A run gives out more and more ids. -/
theorem after_sequence (host : Host) (front rest : List MemoryCall) :
    (after host front).sequence ≤ (after host (front ++ rest)).sequence := by
  induction rest using List.reverseRecOn with
  | nil => rw [List.append_nil]
  | append_singleton rest call ih =>
      rw [← List.append_assoc]
      exact ih.trans (after_evolves host (front ++ rest) call).sequence

/-- The ids of the rows of a project. -/
def rowsOf (store : MemoryStore) (project : String) : Set Int :=
  {id | ∃ row, store.memories.lookup id = some row ∧ row.project = project}

theorem total_eq_ncard (store : MemoryStore) (project : String) :
    store.total project = (store.rowsOf project).ncard := by
  rw [total, Table.count_eq_ncard _ _ fun id _ => id]
  · congr 1
    ext id
    simp only [Set.mem_ofPred_eq, rowsOf, ofProject, beq_iff_eq]
    constructor
    · rintro ⟨key, row, held, own, rfl⟩
      exact ⟨row, held, own⟩
    · rintro ⟨row, held, own⟩
      exact ⟨id, row, held, own, rfl⟩
  · intro id row other later _ _ _ _ same
    exact same

/-- An operation of a run keeps the store a map from projects and contents to entries. -/
structure Keeps (host : Host) (calls : List MemoryCall) (call : MemoryCall) : Prop where
  simulates : (after host calls).notebook.Step call.moment call.op
    ((after host calls).execute host call.moment call.op).1 (after host (calls ++ [call])).notebook
  distinct : ∀ id row other held, (after host (calls ++ [call])).memories.lookup id = some row →
    (after host (calls ++ [call])).memories.lookup other = some held →
    row.project = held.project → row.content = held.content → id = other
  bounded : ∀ id row, (after host (calls ++ [call])).memories.lookup id = some row →
    1 ≤ row.importance ∧ row.importance ≤ 5
  grows : ∀ id row later, (after host calls).memories.lookup id = some row →
    (after host (calls ++ [call])).memories.lookup id = some later → row.importance ≤ later.importance
  unused : ∀ id row, (after host (calls ++ [call])).memories.lookup id = some row →
    (after host calls).memories.lookup id = none → ∀ front, front <+: calls →
    (after host front).memories.lookup id = none
  totals : ∀ result total, ((after host calls).execute host call.moment call.op).1 = .ok result →
    result.total = some total → total = ((after host (calls ++ [call])).rowsOf call.op.project).ncard
  clears : ∀ project id, call.op = .forget project id true →
    (after host (calls ++ [call])).rowsOf project = ∅
  others : ∀ id row, row.project ≠ call.op.project →
    ((after host (calls ++ [call])).memories.lookup id = some row ↔
      (after host calls).memories.lookup id = some row)

/-- A forgotten project has no rows. -/
theorem forget_all_rows (store : MemoryStore) (project : String) (id : Option Int) :
    (store.forget project id true).2.rowsOf project = ∅ := by
  ext other
  simp only [rowsOf, Set.mem_ofPred_eq, Set.mem_empty_iff_false, iff_false]
  rintro ⟨row, held, own⟩
  change (store.memories.deleteWhere (ofProject project)).lookup other = some row at held
  rw [Table.lookup_deleteWhere, Option.filter_eq_some_iff] at held
  simp [ofProject, own] at held

/-- A memory store refines a map from projects and trimmed contents to entries. -/
theorem memory_refines (host : Host) (injective : Function.Injective host.sha256) :
    empty.notebook = .empty ∧ ∀ calls call, Keeps host calls call := by
  refine ⟨rfl, fun calls call => ?_⟩
  have valid := after_valid host calls
  have later := after_valid host (calls ++ [call])
  have evolves := after_evolves host calls call
  have step := valid.execute_step call.moment injective call.op
  constructor
  · rw [after_concat]
    exact step
  · intro id row other held
    exact later.same_id
  · intro id row held
    exact ⟨(later id row held).low, (later id row held).high⟩
  · intro id row next held there
    exact ((evolves.grows id row next held there).importance (valid id row held).high).1
  · intro id row held missing front initial
    obtain ⟨rest, rfl⟩ := initial
    rcases evolves.fresh id row held with kept | ⟨new, -⟩
    · rw [missing] at kept
      cases kept
    · cases earlier : (after host front).memories.lookup id with
      | none => rfl
      | some old =>
          have known := (after host front).issued id old earlier
          have order := after_sequence host front rest
          omega
  · intro result total success given
    rw [← total_eq_ncard, later.total_eq, after_concat]
    exact step.total_eq success given
  · intro project id same
    rw [after_concat, next, same]
    exact forget_all_rows _ project id
  · exact evolves.others

/-- A digest that is the one of SHA-256 on one text and spells the other ones. -/
def spelledDigest (bytes : List UInt8) : String :=
  if bytes = Text.encode "usa pnpm" then
    "4a58351c5cfd0a67658646c1ecdc76f3fd7492989e5388fd8ab5c4896e0264bf"
  else String.ofList ('g' :: bytes.map fun byte => Char.ofNat byte.toNat)

theorem spelledDigest_injective : Function.Injective spelledDigest := by
  have spelled : Function.Injective fun byte : UInt8 => Char.ofNat byte.toNat := by
    intro first second same
    have codes : ∀ byte : UInt8, (Char.ofNat byte.toNat).toNat = byte.toNat := by
      intro byte
      exact Text.toNat_ofNat (.inl (by have := byte.toNat_lt; omega))
    have equal := congrArg Char.toNat same
    rw [codes, codes] at equal
    exact UInt8.toNat_inj.mp equal
  have apart : ∀ list : List Char, String.ofList ('g' :: list) ≠
      "4a58351c5cfd0a67658646c1ecdc76f3fd7492989e5388fd8ab5c4896e0264bf" := by
    intro list same
    have heads := congrArg (fun text => text.toList.head?) same
    simp at heads
  intro first second same
  unfold spelledDigest at same
  split at same
  · rename_i one
    split at same
    · rename_i two
      rw [one, two]
    · exact absurd same.symm (apart _)
  · split at same
    · exact absurd same (apart _)
    · have lists := (List.cons.inj (String.ofList_injective same)).2
      exact List.map_injective_iff.mpr spelled lists
/-- A quiet host with this digest. -/
def spelledStore : Host := { Host.quiet with sha256 := spelledDigest }

/-- A fact about a repository. -/
def rememberFact (now : Int) : MemoryCall :=
  ⟨⟨now, none, fun _ _ => false⟩, .remember "/repo" " usa pnpm " none (some 3) []⟩

/-- The second time a fact is remembered keeps the store a map. -/
theorem memory_refines_fact :
    empty.notebook = .empty ∧ Keeps spelledStore [rememberFact 1] (rememberFact 2) :=
  ⟨(memory_refines spelledStore spelledDigest_injective).1,
    (memory_refines spelledStore spelledDigest_injective).2 [rememberFact 1] (rememberFact 2)⟩

end MemoryStore

end Daemon
