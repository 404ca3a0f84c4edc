import SynthHiresBridge.Daemon.TaskRegistry
import SynthHiresBridge.Proof.TaskStatus

namespace Daemon

open Transition

namespace TaskTables

/-- What the callers said last about each task, and the tokens that they registered for a task and
did not give up by its end. -/
structure Ledger where
  said : Uuid → Option TaskStatus
  registered : Uuid → Option Nat

namespace Ledger

def empty : Ledger := ⟨fun _ => none, fun _ => none⟩

def record (ledger : Ledger) (state : TaskState) : Ledger :=
  { ledger with said := Function.update ledger.said state.id (some state.status) }

/-- A task that has ended stays ended until it is recorded again, and an end gives its token up. -/
def update (ledger : Ledger) (id : Uuid) (status : TaskStatus) : Ledger where
  said := Function.update ledger.said id
    ((ledger.said id).map fun old => if isTerminal old then old else status)
  registered := if isTerminal status then Function.update ledger.registered id none
    else ledger.registered

def next (ledger : Ledger) (tables : TaskTables) : TaskCall → Ledger
  | .recordGlobalTask state => ledger.record state
  | .spawnTask state _ => ledger.record state
  | .updateGlobalTask id status => ledger.update id status
  | .markStatus id status => ledger.update id status
  | .registerGlobalCancellation id token =>
      { ledger with registered := Function.update ledger.registered id (some token) }
  | .killTask id =>
      match (tables.registry.killSignal tables.shared id).1 with
      | none => ledger
      | some status => ledger.update id status
  | _ => ledger

theorem said_record (ledger : Ledger) (state : TaskState) :
    (ledger.record state).said state.id = some state.status := by
  simp [record]

theorem said_record_ne (ledger : Ledger) (state : TaskState) {id : Uuid} (other : id ≠ state.id) :
    (ledger.record state).said id = ledger.said id := by
  simp [record, other]

theorem said_update (ledger : Ledger) (id : Uuid) (status : TaskStatus) :
    (ledger.update id status).said id =
      (ledger.said id).map fun old => if isTerminal old then old else status := by
  simp [update]

theorem said_update_ne (ledger : Ledger) {id other : Uuid} (apart : other ≠ id)
    (status : TaskStatus) : (ledger.update id status).said other = ledger.said other := by
  simp [update, apart]

end Ledger

/-- The tables are kept beside the ledger, which no call reads. -/
structure Audited where
  tables : TaskTables
  ledger : Ledger

def Audited.start (maxCapacity : Nat) : Audited := ⟨.start maxCapacity, .empty⟩

def Audited.step (audited : Audited) (call : TaskCall) : Audited :=
  ⟨audited.tables.step call, audited.ledger.next audited.tables call⟩

/-- No unfinished task is dropped while a finished one remains. -/
def DropsFinishedFirst (before after : List TaskState) : Prop :=
  ∀ task ∈ before, isTerminal task.status = false → (∀ other ∈ after, other.id ≠ task.id) →
    ∀ other ∈ after, isTerminal other.status = false

/-- A task that is not finished is shown with its status, and a kill reaches it by the token that was
registered for it or by its handle. -/
structure Visible (audited : Audited) : Prop where
  listed : ∀ id status, audited.ledger.said id = some status → isTerminal status = false →
    ∃ task ∈ audited.tables.states, task.id = id ∧ task.status = status
  cancellable : ∀ id token, audited.ledger.registered id = some token →
    (audited.tables.killTask id).1 = true ∧ (audited.tables.registry.handles.lookup id = none →
      token ∈ (audited.tables.killTask id).2.shared.cancelled)

/-- A new task that makes the oldest one go finds it finished, and an unfinished task comes without
the time of an end. -/
def SparesUnfinished (tables : TaskTables) : TaskCall → Prop
  | .recordGlobalTask state | .spawnTask state _ =>
      (isTerminal state.status = false → state.finishedAt = none) ∧
        (tables.shared.find state.id = none → 200 ≤ tables.shared.tasks.length →
          ∀ oldest, tables.shared.tasks.head? = some oldest → isTerminal oldest.status = true)
  | _ => True

theorem newestTasks_short {tasks : List TaskState} (short : tasks.length ≤ 200) :
    newestTasks tasks = tasks := by
  unfold newestTasks
  rw [Nat.sub_eq_zero_of_le short, List.drop_zero]

theorem newestTasks_cons (oldest : TaskState) {rest : List TaskState} (full : rest.length = 200) :
    newestTasks (oldest :: rest) = rest := by
  unfold newestTasks
  rw [List.length_cons, full, Nat.add_sub_cancel_left, List.drop_one, List.tail_cons]

theorem length_changeTask (tasks : List TaskState) (id : Uuid) (change : TaskState → TaskState)
    (same : ∀ task, task.id = id → (change task).id = id) :
    (changeTask tasks id change).length = tasks.length := by
  have ids := congrArg List.length (map_id_changeTask tasks id change same)
  rwa [List.length_map, List.length_map] at ids

/-- A record changes a task in place, or it adds one, and it then drops at most the oldest one. -/
inductive RecordStep (shared : SharedTasks) (state : TaskState) (after : List TaskState) : Prop
  | changed (same : after = changeTask shared.tasks state.id fun _ => state)
      (held : shared.find state.id ≠ none)
  | added (same : after = shared.tasks ++ [state]) (missing : shared.find state.id = none)
      (room : shared.tasks.length < 200)
  | dropped (oldest : TaskState) (rest : List TaskState) (before : shared.tasks = oldest :: rest)
      (same : after = rest ++ [state]) (missing : shared.find state.id = none)
      (full : shared.tasks.length = 200)

theorem recordStep {shared : SharedTasks} (room : shared.tasks.length ≤ 200) (state : TaskState) :
    RecordStep shared state (shared.recordGlobalTask state).tasks := by
  have changes : ∀ task : TaskState, task.id = state.id → state.id = state.id := fun _ _ => rfl
  by_cases any : (shared.tasks.any fun task => task.id = state.id) = true
  · refine .changed ?_ ?_
    · rw [SharedTasks.recordGlobalTask, if_pos any]
      exact newestTasks_short ((length_changeTask _ _ _ changes).trans_le room)
    · obtain ⟨task, member, same⟩ := List.any_eq_true.mp any
      intro missing
      exact List.find?_eq_none.mp missing task member same
  · have missing : shared.find state.id = none := by simpa [SharedTasks.find] using any
    have appended : (shared.recordGlobalTask state).tasks = newestTasks (shared.tasks ++ [state]) := by
      rw [SharedTasks.recordGlobalTask, if_neg any]
    rcases Nat.lt_or_eq_of_le room with space | full
    · refine .added (appended.trans (newestTasks_short ?_)) missing space
      rw [List.length_append]
      exact space
    · cases before : shared.tasks with
      | nil =>
          rw [before] at full
          cases full
      | cons oldest rest =>
          refine .dropped oldest rest before ?_ missing full
          rw [appended, before, List.cons_append]
          refine newestTasks_cons oldest ?_
          rw [before, List.length_cons] at full
          rw [List.length_append]
          exact full

/-- While unfinished tasks are spared, the list has every task that was said to be unfinished. -/
structure Retained (audited : Audited) : Prop where
  distinct : (audited.tables.shared.tasks.map TaskState.id).Nodup
  room : audited.tables.shared.tasks.length ≤ 200
  untimed : ∀ task ∈ audited.tables.shared.tasks, isTerminal task.status = false →
    task.finishedAt = none
  listed : ∀ id status, audited.ledger.said id = some status → isTerminal status = false →
    ∃ task ∈ audited.tables.shared.tasks, task.id = id ∧ task.status = status
  registered : ∀ id token, audited.ledger.registered id = some token →
    audited.tables.shared.cancellations.lookup id = some token

/-- What a call does to the shared tasks is put together from these parts. -/
theorem Retained.congr {audited next : Audited} (retained : Retained audited)
    (tasks : next.tables.shared.tasks = audited.tables.shared.tasks)
    (said : next.ledger.said = audited.ledger.said)
    (registered : ∀ id token, next.ledger.registered id = some token →
      next.tables.shared.cancellations.lookup id = some token) : Retained next where
  distinct := by rw [tasks]; exact retained.distinct
  room := by rw [tasks]; exact retained.room
  untimed := by rw [tasks]; exact retained.untimed
  listed := by rw [said, tasks]; exact retained.listed
  registered := registered

theorem changeTask_cons_self {first : TaskState} {id : Uuid} (own : first.id = id)
    (rest : List TaskState) (change : TaskState → TaskState) :
    changeTask (first :: rest) id change = change first :: rest := by
  simp [changeTask, own]

theorem changeTask_cons_ne {first : TaskState} {id : Uuid} (other : first.id ≠ id)
    (rest : List TaskState) (change : TaskState → TaskState) :
    changeTask (first :: rest) id change = first :: changeTask rest id change := by
  simp [changeTask, other]

theorem mem_changeTask {tasks : List TaskState} {id : Uuid} {change : TaskState → TaskState}
    {task : TaskState} (member : task ∈ changeTask tasks id change) :
    task ∈ tasks ∨ ∃ old ∈ tasks, task = change old := by
  induction tasks with
  | nil => cases member
  | cons first rest ih =>
      by_cases own : first.id = id
      · rw [changeTask_cons_self own] at member
        rcases List.mem_cons.mp member with rfl | later
        · exact .inr ⟨first, List.mem_cons_self, rfl⟩
        · exact .inl (List.mem_cons_of_mem _ later)
      · rw [changeTask_cons_ne own] at member
        rcases List.mem_cons.mp member with rfl | later
        · exact .inl List.mem_cons_self
        · rcases ih later with inside | ⟨old, inside, same⟩
          · exact .inl (List.mem_cons_of_mem _ inside)
          · exact .inr ⟨old, List.mem_cons_of_mem _ inside, same⟩

theorem mem_changeTask_ne {tasks : List TaskState} {id : Uuid} {change : TaskState → TaskState}
    {task : TaskState} (member : task ∈ tasks) (other : task.id ≠ id) :
    task ∈ changeTask tasks id change := by
  induction tasks with
  | nil => cases member
  | cons first rest ih =>
      by_cases own : first.id = id
      · rw [changeTask_cons_self own]
        rcases List.mem_cons.mp member with rfl | later
        · exact absurd own other
        · exact List.mem_cons_of_mem _ later
      · rw [changeTask_cons_ne own]
        rcases List.mem_cons.mp member with rfl | later
        · exact List.mem_cons_self
        · exact List.mem_cons_of_mem _ (ih later)

theorem changed_mem_changeTask {tasks : List TaskState} (distinct : (tasks.map TaskState.id).Nodup)
    (change : TaskState → TaskState) {task : TaskState} (member : task ∈ tasks) :
    change task ∈ changeTask tasks task.id change := by
  induction tasks with
  | nil => cases member
  | cons first rest ih =>
      rw [List.map_cons, List.nodup_cons] at distinct
      rcases List.mem_cons.mp member with rfl | later
      · rw [changeTask_cons_self rfl]
        exact List.mem_cons_self
      · have other : first.id ≠ task.id := by
          intro same
          exact distinct.1 (List.mem_map.mpr ⟨task, later, same.symm⟩)
        rw [changeTask_cons_ne other]
        exact List.mem_cons_of_mem _ (ih distinct.2 later)

/-- A record lists its own task, and another task stays unless it is the oldest one of a full list. -/
theorem RecordStep.mem {shared : SharedTasks} {state : TaskState} {after : List TaskState}
    (distinct : (shared.tasks.map TaskState.id).Nodup) (recorded : RecordStep shared state after) :
    state ∈ after := by
  cases recorded with
  | changed same held =>
      obtain ⟨first, found⟩ := Option.ne_none_iff_exists'.mp held
      have number : first.id = state.id := by simpa using List.find?_some found
      have now := changed_mem_changeTask distinct (fun _ => state) (List.mem_of_find?_eq_some found)
      rwa [number, ← same] at now
  | added same missing room => simp [same]
  | dropped oldest rest before same missing full => simp [same]

theorem RecordStep.mem_other {shared : SharedTasks} {state task : TaskState}
    {after : List TaskState} (recorded : RecordStep shared state after)
    (spares : shared.find state.id = none → 200 ≤ shared.tasks.length → ∀ oldest,
      shared.tasks.head? = some oldest → isTerminal oldest.status = true)
    (member : task ∈ shared.tasks) (other : task.id ≠ state.id)
    (unfinished : isTerminal task.status = false) : task ∈ after := by
  cases recorded with
  | changed same held =>
      rw [same]
      exact mem_changeTask_ne member other
  | added same missing room =>
      rw [same]
      exact List.mem_append_left _ member
  | dropped oldest rest before same missing full =>
      rw [before] at member
      rcases List.mem_cons.mp member with rfl | later
      -- The oldest task is finished, and this one is not.
      · have ended := spares missing full.ge task (by rw [before]; rfl)
        rw [unfinished] at ended
        cases ended
      · rw [same]
        exact List.mem_append_left _ later

theorem RecordStep.mem_cases {shared : SharedTasks} {state task : TaskState}
    {after : List TaskState} (recorded : RecordStep shared state after) (member : task ∈ after) :
    task = state ∨ task ∈ shared.tasks := by
  cases recorded with
  | changed same held =>
      rw [same] at member
      rcases mem_changeTask member with before | ⟨old, -, own⟩
      · exact .inr before
      · exact .inl own
  | added same missing room =>
      rw [same] at member
      rcases List.mem_append.mp member with before | own
      · exact .inr before
      · exact .inl (List.mem_singleton.mp own)
  | dropped oldest rest before same missing full =>
      rw [same] at member
      rcases List.mem_append.mp member with later | own
      · exact .inr (by rw [before]; exact List.mem_cons_of_mem _ later)
      · exact .inl (List.mem_singleton.mp own)

theorem RecordStep.room {shared : SharedTasks} {state : TaskState} {after : List TaskState}
    (room : shared.tasks.length ≤ 200) (recorded : RecordStep shared state after) :
    after.length ≤ 200 := by
  cases recorded with
  | changed same held =>
      rw [same, length_changeTask _ _ _ fun _ _ => rfl]
      exact room
  | added same missing space =>
      rw [same, List.length_append]
      exact space
  | dropped oldest rest before same missing full =>
      rw [before, List.length_cons] at full
      rw [same, List.length_append, List.length_singleton, full]

/-- A record of a spared kind lists its own task and leaves the unfinished ones in the list. -/
theorem Retained.record {audited next : Audited} (retained : Retained audited) (state : TaskState)
    (fresh : isTerminal state.status = false → state.finishedAt = none)
    (spares : audited.tables.shared.find state.id = none →
      200 ≤ audited.tables.shared.tasks.length → ∀ oldest,
        audited.tables.shared.tasks.head? = some oldest → isTerminal oldest.status = true)
    (shared : next.tables.shared = audited.tables.shared.recordGlobalTask state)
    (ledger : next.ledger = audited.ledger.record state) : Retained next := by
  have recorded := recordStep retained.room state
  rw [← shared] at recorded
  refine ⟨?_, recorded.room retained.room, ?_, ?_, ?_⟩
  · obtain ⟨tasks, inside, unique, -⟩ := audited.tables.shared.recordGlobalTask_sublist state
    rw [shared]
    exact (unique retained.distinct).sublist (inside.map TaskState.id)
  · intro task member unfinished
    rcases recorded.mem_cases member with rfl | before
    · exact fresh unfinished
    · exact retained.untimed task before unfinished
  · intro id status named unfinished
    rw [ledger] at named
    by_cases own : id = state.id
    · subst own
      rw [Ledger.said_record] at named
      exact ⟨state, recorded.mem retained.distinct, rfl, Option.some.inj named⟩
    · rw [Ledger.said_record_ne _ _ own] at named
      obtain ⟨task, member, number, same⟩ := retained.listed id status named unfinished
      refine ⟨task, recorded.mem_other spares member ?_ (by rw [same]; exact unfinished), number, same⟩
      rwa [number]
  · intro id token held
    rw [ledger] at held
    rw [shared]
    exact retained.registered id token held

/-- An update leaves the tasks in the list, and an end takes the token of its task out. -/
theorem Retained.update {audited next : Audited} (retained : Retained audited) (id : Uuid)
    (status : TaskStatus) (shared : next.tables.shared = (audited.tables.update id status).shared)
    (ledger : next.ledger = audited.ledger.update id status) : Retained next := by
  have tasks : next.tables.shared.tasks = changeTask audited.tables.shared.tasks id
      (TaskState.setStatus audited.tables.shared.now status) := by
    rw [shared, TaskTables.update]
    split <;> rfl
  have ids := map_id_changeTask audited.tables.shared.tasks id
    (TaskState.setStatus audited.tables.shared.now status) fun _ same => same
  refine ⟨?_, ?_, ?_, ?_, ?_⟩
  · rw [tasks, ids]
    exact retained.distinct
  · rw [tasks, length_changeTask]
    · exact retained.room
    · exact fun _ same => same
  · intro task member unfinished
    rw [tasks] at member
    rcases mem_changeTask member with before | ⟨old, -, rfl⟩
    · exact retained.untimed task before unfinished
    · rw [TaskState.setStatus] at unfinished ⊢
      simp only at unfinished
      simp [unfinished]
  · intro other given named unfinished
    rw [ledger] at named
    rw [tasks]
    by_cases own : other = id
    · subst own
      rw [Ledger.said_update] at named
      obtain ⟨old, before, changed⟩ := Option.map_eq_some_iff.mp named
      split at changed
      · rename_i ended
        rw [← changed, ended] at unfinished
        cases unfinished
      · rename_i going
        obtain ⟨task, member, number, same⟩ := retained.listed other old before (by simpa using going)
        refine ⟨task.setStatus audited.tables.shared.now status, ?_, number, changed⟩
        rw [← number]
        exact changed_mem_changeTask retained.distinct _ member
    · rw [Ledger.said_update_ne _ own] at named
      obtain ⟨task, member, number, same⟩ := retained.listed other given named unfinished
      exact ⟨task, mem_changeTask_ne member (by rwa [number]), number, same⟩
  · intro other token held
    rw [ledger, Ledger.update] at held
    rw [shared, TaskTables.update]
    by_cases ended : isTerminal status = true
    · simp only [ended, if_true] at held ⊢
      by_cases own : other = id
      · subst own
        rw [Function.update_self] at held
        cases held
      · rw [Function.update_of_ne own] at held
        exact (AList.lookup_erase_ne own).trans (retained.registered other token held)
    · simp only [ended] at held ⊢
      exact retained.registered other token held

/-- A kill reaches a task by its handle or by the token that is registered for it. -/
theorem killSignal_cases (registry : TaskRegistry) (shared : SharedTasks) (id : Uuid) :
    (registry.killSignal shared id).2.2.tasks = shared.tasks ∧
      (registry.killSignal shared id).2.2.cancellations = shared.cancellations ∧
      ∀ token, shared.cancellations.lookup id = some token →
        (registry.killSignal shared id).1.isSome ∧ (registry.handles.lookup id = none →
          token ∈ (registry.killSignal shared id).2.2.cancelled) := by
  unfold TaskRegistry.killSignal
  split
  · rename_i held
    refine ⟨rfl, rfl, fun token _ => ⟨rfl, fun missing => ?_⟩⟩
    rw [held] at missing
    cases missing
  · rename_i other held
    refine ⟨rfl, rfl, fun token _ => ⟨rfl, fun missing => ?_⟩⟩
    rw [held] at missing
    cases missing
  · rw [SharedTasks.cancelGlobalTask]
    split
    · rename_i given held
      refine ⟨rfl, rfl, fun token same => ⟨rfl, fun _ => ?_⟩⟩
      rw [held] at same
      obtain rfl := Option.some.inj same
      exact Finset.mem_insert_self _ _
    · rename_i missing
      refine ⟨rfl, rfl, fun token same => ?_⟩
      rw [missing] at same
      cases same

theorem cancelled_update (tables : TaskTables) (id : Uuid) (status : TaskStatus) :
    (tables.update id status).shared.cancelled = tables.shared.cancelled := by
  rw [update]
  split <;> rfl

theorem Retained.visible {audited : Audited} (retained : Retained audited) : Visible audited where
  listed := retained.listed
  cancellable id token held := by
    obtain ⟨-, -, reaches⟩ :=
      killSignal_cases audited.tables.registry audited.tables.shared id
    obtain ⟨sent, cancelled⟩ := reaches token (retained.registered id token held)
    unfold killTask
    simp only
    split
    · rename_i missing
      rw [missing] at sent
      cases sent
    · rename_i status given
      refine ⟨rfl, fun missing => ?_⟩
      rw [mark, cancelled_update]
      exact cancelled missing

theorem Retained.kill {audited : Audited} (retained : Retained audited) (id : Uuid) :
    Retained (audited.step (.killTask id)) := by
  obtain ⟨tasks, cancellations, -⟩ :=
    killSignal_cases audited.tables.registry audited.tables.shared id
  cases sent : (audited.tables.registry.killSignal audited.tables.shared id).1 with
  | none =>
      refine retained.congr ?_ ?_ ?_
      · simp only [Audited.step, TaskTables.step, killTask, sent]
        exact tasks
      · simp only [Audited.step, Ledger.next, sent]
      · intro other token held
        simp only [Audited.step, Ledger.next, sent] at held
        simp only [Audited.step, TaskTables.step, killTask, sent]
        rw [cancellations]
        exact retained.registered other token held
  | some status =>
      -- The signal changes nothing that the mark looks at.
      have signalled : Retained ⟨⟨(audited.tables.registry.killSignal audited.tables.shared id).2.2,
          (audited.tables.registry.killSignal audited.tables.shared id).2.1⟩, audited.ledger⟩ := by
        refine retained.congr tasks rfl fun other token held => ?_
        rw [cancellations]
        exact retained.registered other token held
      refine signalled.update id status ?_ ?_
      · simp only [Audited.step, TaskTables.step, killTask, sent, mark]
        rfl
      · simp only [Audited.step, Ledger.next, sent]

theorem Retained.cleanup {audited : Audited} (retained : Retained audited) (ttl : Nat) :
    Retained (audited.step (.cleanupStaleTasks ttl)) := by
  have inside : (audited.step (.cleanupStaleTasks ttl)).tables.shared.tasks.Sublist
      audited.tables.shared.tasks := List.filter_sublist
  refine ⟨retained.distinct.sublist (inside.map TaskState.id), inside.length_le.trans retained.room,
    ?_, ?_, retained.registered⟩
  · intro task member unfinished
    exact retained.untimed task (inside.subset member) unfinished
  · intro id status named unfinished
    obtain ⟨task, member, number, same⟩ := retained.listed id status named unfinished
    refine ⟨task, List.mem_filter.mpr ⟨member, ?_⟩, number, same⟩
    rw [keepsTask, retained.untimed task member (by rw [same]; exact unfinished)]

theorem Retained.step {audited : Audited} (retained : Retained audited) (call : TaskCall)
    (spares : SparesUnfinished audited.tables call) : Retained (audited.step call) := by
  cases call with
  | passes elapsed => exact retained.congr rfl rfl retained.registered
  | recordGlobalTask state => exact retained.record state spares.1 spares.2 rfl rfl
  | updateGlobalTask id status => exact retained.update id status rfl rfl
  | registerGlobalCancellation id token =>
      refine retained.congr rfl rfl fun other given held => ?_
      by_cases own : other = id
      · subst own
        have same : some token = some given := (Function.update_self other _ _).symm.trans held
        rw [← same]
        exact AList.lookup_insert _
      · have before : audited.ledger.registered other = some given :=
          (Function.update_of_ne own _ _).symm.trans held
        exact (AList.lookup_insert_ne own).trans (retained.registered other given before)
  | spawnTask state handle => exact retained.record state spares.1 spares.2 rfl rfl
  | states => exact retained.congr rfl rfl retained.registered
  | killTask id => exact retained.kill id
  | markStatus id status => exact retained.update id status rfl rfl
  | cleanupStaleTasks ttl => exact retained.cleanup ttl

theorem retained_start (maxCapacity : Nat) : Retained (.start maxCapacity) := by
  refine ⟨List.nodup_nil, Nat.zero_le 200, ?_, ?_, ?_⟩
  · intro task member
    cases member
  · intro id status named
    cases named
  · intro id token held
    cases held

theorem ids_update (tables : TaskTables) (id : Uuid) (status : TaskStatus) :
    (tables.update id status).shared.tasks.map TaskState.id =
      tables.shared.tasks.map TaskState.id := by
  have ids := map_id_changeTask tables.shared.tasks id
    (TaskState.setStatus tables.shared.now status) fun _ same => same
  rw [update]
  split <;> exact ids

theorem ids_killTask (tables : TaskTables) (id : Uuid) :
    (tables.killTask id).2.shared.tasks.map TaskState.id =
      tables.shared.tasks.map TaskState.id := by
  obtain ⟨tasks, -, -⟩ := killSignal_cases tables.registry tables.shared id
  unfold killTask
  simp only
  split
  · rw [tasks]
  · rw [mark, ids_update]
    exact congrArg (List.map TaskState.id) tasks

/-- A call that spares the unfinished tasks drops none of them. -/
theorem Retained.dropsFinishedFirst {audited : Audited} (retained : Retained audited)
    (call : TaskCall) (spares : SparesUnfinished audited.tables call) :
    DropsFinishedFirst audited.tables.shared.tasks (audited.step call).tables.shared.tasks := by
  have enough : (∀ task ∈ audited.tables.shared.tasks, isTerminal task.status = false →
      task.id ∈ (audited.step call).tables.shared.tasks.map TaskState.id) →
      DropsFinishedFirst audited.tables.shared.tasks (audited.step call).tables.shared.tasks := by
    intro stays task member unfinished gone
    obtain ⟨other, inside, same⟩ := List.mem_map.mp (stays task member unfinished)
    exact absurd same (gone other inside)
  have sameIds : (audited.step call).tables.shared.tasks.map TaskState.id =
      audited.tables.shared.tasks.map TaskState.id →
      DropsFinishedFirst audited.tables.shared.tasks (audited.step call).tables.shared.tasks := by
    intro same
    refine enough fun task member _ => ?_
    rw [same]
    exact List.mem_map_of_mem member
  have recorded : ∀ state : TaskState, (audited.tables.shared.find state.id = none →
      200 ≤ audited.tables.shared.tasks.length → ∀ oldest,
        audited.tables.shared.tasks.head? = some oldest → isTerminal oldest.status = true) →
      (audited.step call).tables.shared = audited.tables.shared.recordGlobalTask state →
      DropsFinishedFirst audited.tables.shared.tasks (audited.step call).tables.shared.tasks := by
    intro state spared shared
    have one := recordStep retained.room state
    rw [← shared] at one
    refine enough fun task member unfinished => ?_
    by_cases own : task.id = state.id
    · rw [own]
      exact List.mem_map_of_mem (one.mem retained.distinct)
    · exact List.mem_map_of_mem (one.mem_other spared member own unfinished)
  cases call with
  | passes elapsed => exact sameIds rfl
  | recordGlobalTask state => exact recorded state spares.2 rfl
  | updateGlobalTask id status => exact sameIds (audited.tables.ids_update id status)
  | registerGlobalCancellation id token => exact sameIds rfl
  | spawnTask state handle => exact recorded state spares.2 rfl
  | states => exact sameIds rfl
  | killTask id => exact sameIds (audited.tables.ids_killTask id)
  | markStatus id status => exact sameIds (ids_update _ id status)
  | cleanupStaleTasks ttl =>
      refine enough fun task member unfinished => List.mem_map_of_mem (List.mem_filter.mpr ⟨member, ?_⟩)
      rw [keepsTask, retained.untimed task member unfinished]

theorem retained_run (maxCapacity : Nat) (calls : List TaskCall)
    (spared : Throughout (fun before call =>
      SparesUnfinished (run Audited.step (.start maxCapacity) before).tables call) calls) :
    Retained (run Audited.step (.start maxCapacity) calls) := by
  refine invariant Audited.step (.start maxCapacity) _ (fun _ audited => Retained audited)
    (retained_start maxCapacity) ?_ calls spared
  intro before call retained spares
  exact retained.step call spares

/-- As long as the oldest task is finished whenever a new one makes it go, no unfinished task goes
before a finished one, and every unfinished task is listed and can be cancelled. -/
theorem unfinished_tasks_stay (maxCapacity : Nat) (calls : List TaskCall)
    (spared : Throughout (fun before call =>
      SparesUnfinished (run Audited.step (.start maxCapacity) before).tables call) calls) :
    Throughout (fun before call =>
        DropsFinishedFirst (run Audited.step (.start maxCapacity) before).tables.shared.tasks
          (run Audited.step (.start maxCapacity) (before ++ [call])).tables.shared.tasks) calls ∧
      Visible (run Audited.step (.start maxCapacity) calls) := by
  refine ⟨?_, (retained_run maxCapacity calls spared).visible⟩
  intro before call after same
  rw [run_concat]
  rw [same] at spared
  exact (retained_run maxCapacity before spared.initial).dropsFinishedFirst call
    (spared before call after rfl)

/-- A task of a number begins, and it is registered, and then it is shown. -/
theorem begun_task_stays :
    Visible (run Audited.step (.start 200) [.recordGlobalTask (.begun 1 .shellExec "sleep" 0),
      .registerGlobalCancellation 1 7, .states]) := by
  refine (unfinished_tasks_stay 200 _ (.cons ?_ (.cons ?_ (.cons ?_ (.nil _))))).2
  · refine ⟨fun _ => rfl, fun _ full => ?_⟩
    cases full
  · trivial
  · trivial

/-- New tasks are added in their order while there is room. -/
theorem tasks_recorded {audited : Audited} {states : List TaskState}
    (distinct : ((audited.tables.shared.tasks ++ states).map TaskState.id).Nodup)
    (room : (audited.tables.shared.tasks ++ states).length ≤ 200) :
    (run Audited.step audited (states.map .recordGlobalTask)).tables.shared.tasks =
      audited.tables.shared.tasks ++ states := by
  induction states generalizing audited with
  | nil => simp
  | cons first rest ih =>
      have space : audited.tables.shared.tasks.length < 200 := by
        rw [List.length_append, List.length_cons] at room
        omega
      have missing : audited.tables.shared.find first.id = none := by
        refine List.find?_eq_none.mpr fun task member same => ?_
        rw [List.map_append, List.nodup_append] at distinct
        exact distinct.2.2 task.id (List.mem_map_of_mem member) first.id (by simp) (by simpa using same)
      have added : (audited.step (.recordGlobalTask first)).tables.shared.tasks =
          audited.tables.shared.tasks ++ [first] := by
        cases recordStep space.le first with
        | changed same held => exact absurd missing held
        | added same missing room => exact same
        | dropped oldest rest before same missing full => exact absurd full space.ne
      rw [List.append_cons, ← added] at distinct room ⊢
      exact ih distinct room

/-- Tasks that have ended are recorded after one that runs, until it goes. -/
def endedTasks (count : Nat) : List TaskState :=
  (List.range count).map fun number =>
    ⟨BitVec.ofNat 128 (number + 1), .shellExec, "ls", .completed (some 0), 0, some 0⟩

def serverTask : TaskState := .begun 0 (.other "proc") "server" 0

theorem ids_distinct : ((serverTask :: endedTasks 199).map TaskState.id).Nodup := by
  have ids : (serverTask :: endedTasks 199).map TaskState.id =
      (List.range 200).map (BitVec.ofNat 128) := by decide +kernel
  rw [ids]
  refine List.Nodup.map_on ?_ List.nodup_range
  intro first small second less same
  rw [List.mem_range] at small less
  have numbers := congrArg BitVec.toNat same
  rw [BitVec.toNat_ofNat, BitVec.toNat_ofNat, Nat.mod_eq_of_lt (by omega), Nat.mod_eq_of_lt (by omega)]
    at numbers
  exact numbers

def serverRuns : Audited :=
  run Audited.step (.start 200) [.recordGlobalTask serverTask, .registerGlobalCancellation 0 7]

def lastEnded : TaskState :=
  ⟨BitVec.ofNat 128 200, .shellExec, "ls", .completed (some 0), 0, some 0⟩

def longRunning : List TaskCall :=
  [.recordGlobalTask serverTask, .registerGlobalCancellation 0 7] ++
    (endedTasks 199).map .recordGlobalTask ++ [.recordGlobalTask lastEnded]

theorem longRunning_parts : longRunning = longRunning.dropLast ++ [.recordGlobalTask lastEnded] := by
  rw [longRunning, List.dropLast_concat]

theorem tasks_before_last :
    (run Audited.step (.start 200) longRunning.dropLast).tables.shared.tasks =
      serverTask :: endedTasks 199 := by
  have begun : serverRuns.tables.shared.tasks = [serverTask] := by decide +kernel
  rw [longRunning, List.dropLast_concat, run_append]
  have recorded := @tasks_recorded serverRuns (endedTasks 199)
  rw [begun] at recorded
  exact recorded ids_distinct (by decide +kernel)

theorem tasks_after_last :
    (run Audited.step (.start 200) longRunning).tables.shared.tasks = endedTasks 200 := by
  have full : (run Audited.step (.start 200) longRunning.dropLast).tables.shared.tasks.length = 200 := by
    rw [tasks_before_last]
    decide +kernel
  have missing : ((run Audited.step (.start 200) longRunning.dropLast).tables.shared.tasks.find?
      fun task => task.id = lastEnded.id) = none := by
    rw [tasks_before_last]
    decide
  have stepped : (run Audited.step (.start 200) longRunning).tables.shared.tasks =
      ((run Audited.step (.start 200) longRunning.dropLast).tables.shared.recordGlobalTask
        lastEnded).tasks := by
    conv_lhs => rw [longRunning_parts, run_concat]
    rfl
  rw [stepped]
  cases recordStep full.le lastEnded with
  | changed same held => exact absurd missing held
  | added same missing room => exact absurd full room.ne
  | dropped oldest rest before same missing full =>
      rw [tasks_before_last] at before
      obtain ⟨rfl, rfl⟩ := List.cons.inj before
      exact same.trans (by decide +kernel)

/-- The last of them makes the running task go, while finished ones stay. -/
theorem longRunning_hidden :
    ¬ Throughout (fun before call =>
        DropsFinishedFirst (run Audited.step (.start 200) before).tables.shared.tasks
          (run Audited.step (.start 200) (before ++ [call])).tables.shared.tasks) longRunning ∧
      ¬ Visible (run Audited.step (.start 200) longRunning) := by
  have absent : ∀ task ∈ endedTasks 200, task.id ≠ 0 ∧ isTerminal task.status = true := by
    decide +kernel
  constructor
  · intro drops
    have last : DropsFinishedFirst _ _ :=
      drops longRunning.dropLast (.recordGlobalTask lastEnded) [] longRunning_parts
    rw [← longRunning_parts, tasks_before_last, tasks_after_last] at last
    have finished := last serverTask List.mem_cons_self rfl
      (fun other member => (absent other member).1) lastEnded (by decide)
    cases finished
  · intro visible
    have said : (run Audited.step (.start 200) longRunning).ledger.said 0 = some .running := by
      decide +kernel
    obtain ⟨task, member, number, -⟩ := visible.listed 0 .running said rfl
    rw [states, TaskRegistry.refresh, tasks_after_last] at member
    exact (absent task member).1 number

end TaskTables

end Daemon
