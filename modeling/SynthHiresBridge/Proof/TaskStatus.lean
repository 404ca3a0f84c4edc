import SynthHiresBridge.Daemon.TaskRegistry
import SynthHiresBridge.Transition.Run

namespace Daemon

open Transition

theorem find?_changeTask (tasks : List TaskState) (id other : Uuid)
    (change : TaskState → TaskState) (same : ∀ task, task.id = id → (change task).id = id) :
    (changeTask tasks id change).find? (fun task => task.id = other) =
      if other = id then (tasks.find? fun task => task.id = id).map change
      else tasks.find? fun task => task.id = other := by
  induction tasks with
  | nil => simp [changeTask]
  | cons first rest ih =>
      rw [changeTask] at ih ⊢
      by_cases own : first.id = id
      · by_cases asked : other = id
        · simp [own, asked, same]
        · simp [own, same, asked, Ne.symm asked]
      · by_cases asked : other = id
        · simpa [own, asked] using ih
        · by_cases here : first.id = other
          · simp [here, asked]
          · simpa [own, here, asked] using ih

theorem map_id_changeTask (tasks : List TaskState) (id : Uuid) (change : TaskState → TaskState)
    (same : ∀ task, task.id = id → (change task).id = id) :
    (changeTask tasks id change).map TaskState.id = tasks.map TaskState.id := by
  induction tasks with
  | nil => rfl
  | cons first rest ih =>
      rw [changeTask] at ih ⊢
      by_cases own : first.id = id
      · simp [own, same]
      · simp [own, ih]

/-- A part of the tasks has no other task under a number. -/
theorem find?_of_sublist {part tasks : List TaskState} (inside : part.Sublist tasks)
    (distinct : (tasks.map TaskState.id).Nodup) {id : Uuid} {task : TaskState}
    (found : part.find? (fun task => task.id = id) = some task) :
    tasks.find? (fun task => task.id = id) = some task := by
  have member : task ∈ tasks := inside.subset (List.mem_of_find?_eq_some found)
  have named : task.id = id := by simpa using List.find?_some found
  cases other : tasks.find? fun task => task.id = id with
  | none =>
      have apart := List.find?_eq_none.mp other task member
      simp [named] at apart
  | some first =>
      have same : first.id = id := by simpa using List.find?_some other
      have one : first = task := List.inj_on_of_nodup_map distinct
        (List.mem_of_find?_eq_some other) member (same.trans named.symm)
      rw [one]

theorem newestTasks_sublist (tasks : List TaskState) : (newestTasks tasks).Sublist tasks := by
  unfold newestTasks
  exact List.drop_sublist _ tasks

namespace SharedTasks

theorem find_updateGlobalTask (shared : SharedTasks) (id other : Uuid) (status : TaskStatus) :
    (shared.updateGlobalTask id status).find other =
      if other = id then (shared.find id).map (TaskState.setStatus shared.now status)
      else shared.find other :=
  find?_changeTask shared.tasks id other (TaskState.setStatus shared.now status) fun _ same => same

/-- A record keeps the tasks of the other numbers, and then the oldest tasks are dropped. -/
theorem recordGlobalTask_sublist (shared : SharedTasks) (state : TaskState) :
    ∃ tasks, (shared.recordGlobalTask state).tasks.Sublist tasks ∧
      ((shared.tasks.map TaskState.id).Nodup → (tasks.map TaskState.id).Nodup) ∧
      ∀ id, tasks.find? (fun task => task.id = id) =
        if id = state.id then some state else shared.find id := by
  have own : ∀ task : TaskState, task.id = state.id → state.id = state.id := fun _ _ => rfl
  by_cases held : (shared.tasks.any fun task => task.id = state.id) = true
  · refine ⟨changeTask shared.tasks state.id fun _ => state, ?_, ?_, ?_⟩
    · rw [recordGlobalTask, if_pos held]
      exact newestTasks_sublist _
    · intro distinct
      rw [map_id_changeTask _ _ _ own]
      exact distinct
    · intro id
      obtain ⟨task, member, same⟩ := List.any_eq_true.mp held
      have found : (shared.tasks.find? fun task => task.id = state.id).isSome :=
        List.find?_isSome.mpr ⟨task, member, same⟩
      obtain ⟨first, held⟩ := Option.isSome_iff_exists.mp found
      rw [find?_changeTask _ _ _ _ own, held]
      rfl
  · have missing : shared.tasks.find? (fun task => task.id = state.id) = none := by
      simpa using held
    refine ⟨shared.tasks ++ [state], ?_, ?_, ?_⟩
    · rw [recordGlobalTask, if_neg held]
      exact newestTasks_sublist _
    · intro distinct
      rw [List.map_append, List.nodup_append]
      refine ⟨distinct, by simp, ?_⟩
      intro id member other last
      obtain ⟨task, inside, rfl⟩ := List.mem_map.mp member
      obtain rfl : other = state.id := by simpa using last
      intro same
      exact held (List.any_eq_true.mpr ⟨task, inside, decide_eq_true same⟩)
    · intro id
      rw [List.find?_append]
      by_cases own : id = state.id
      · rw [own, missing]
        simp
      · simp [find, own, Ne.symm own]

/-- A record drops a task or leaves it, and the recorded task is the new one. -/
theorem find_recordGlobalTask {shared : SharedTasks} (distinct : (shared.tasks.map TaskState.id).Nodup)
    {state task : TaskState} {id : Uuid} (found : (shared.recordGlobalTask state).find id = some task) :
    some task = if id = state.id then some state else shared.find id := by
  obtain ⟨tasks, inside, unique, whole⟩ := shared.recordGlobalTask_sublist state
  rw [← whole id]
  exact (find?_of_sublist inside (unique distinct) found).symm

end SharedTasks

namespace TaskBoard

/-- Numbers of tasks are distinct, and every end has its time. -/
structure Orderly (board : TaskBoard) : Prop where
  distinct : (board.shared.tasks.map TaskState.id).Nodup
  timed : ∀ id task, board.find id = some task → isTerminal task.status = true →
    task.finishedAt.isSome

/-- What an event does to the task of a number. -/
inductive Effect (board : TaskBoard) (event : TaskEvent) (id : Uuid) : Option TaskState → Prop where
  | kept : Effect board event id (board.find id)
  | gone : Effect board event id none
  | recorded (task : TaskState) : recorded event = some id →
      (isTerminal task.status = true → task.finishedAt.isSome) → Effect board event id (some task)
  | wrote (status : TaskStatus) : written board event = some (id, status) →
      Effect board event id ((board.find id).map (TaskState.setStatus board.shared.now status))

theorem setStatus_timed (now : Nat) (status : TaskStatus) (task : TaskState)
    (ended : isTerminal (task.setStatus now status).status = true) :
    (task.setStatus now status).finishedAt.isSome := by
  have shown : isTerminal status = true := ended
  simp [TaskState.setStatus, shown]

theorem update_find (board : TaskBoard) (id other : Uuid) (status : TaskStatus) :
    (board.update id status).find other =
      if other = id then (board.find id).map (TaskState.setStatus board.shared.now status)
      else board.find other :=
  board.shared.find_updateGlobalTask id other status

/-- A status is written over the task that is there. -/
theorem step_written {board : TaskBoard} {event : TaskEvent} {id : Uuid} {status : TaskStatus}
    (writes : written board event = some (id, status)) (other : Uuid) :
    (board.step event).find other =
      if other = id then (board.find id).map (TaskState.setStatus board.shared.now status)
      else board.find other := by
  cases event with
  | update given value =>
      cases writes
      exact update_find board id other status
  | killMark =>
      have kill : board.killing = some (id, status) := writes
      rw [step, kill]
      exact update_find board id other status
  | mark given value =>
      rw [written] at writes
      rw [step]
      split at writes
      · cases writes
      · rename_i idle
        cases writes
        rw [if_neg idle]
        exact update_find board id other status
  | passes | record | register | unregister | spawn | refresh | killSignal | cleanup => cases writes

theorem record_effect {board : TaskBoard} (orderly : Orderly board) {event : TaskEvent}
    {state : TaskState} (records : recorded event = some state.id)
    (going : isTerminal state.status = false) (id : Uuid) :
    Effect board event id ((board.record state).find id) := by
  cases held : (board.record state).find id with
  | none => exact .gone
  | some task =>
      have found := SharedTasks.find_recordGlobalTask orderly.distinct held
      by_cases own : id = state.id
      · rw [if_pos own] at found
        obtain rfl := Option.some.inj found
        refine .recorded task (own ▸ records) ?_
        intro ended
        rw [going] at ended
        cases ended
      · rw [if_neg own] at found
        rw [found]
        exact .kept

theorem write_effect {board : TaskBoard} {event : TaskEvent} {given : Uuid} {status : TaskStatus}
    (writes : written board event = some (given, status)) (id : Uuid) :
    Effect board event id ((board.step event).find id) := by
  rw [step_written writes]
  split
  · rename_i own
    subst own
    exact .wrote status writes
  · exact .kept

theorem killSignal_tasks (registry : TaskRegistry) (shared : SharedTasks) (id : Uuid) :
    (registry.killSignal shared id).2.2.tasks = shared.tasks := by
  rw [TaskRegistry.killSignal]
  split
  · rfl
  · rfl
  · rw [SharedTasks.cancelGlobalTask]
    split
    · rfl
    · rfl

theorem step_killSignal_tasks (board : TaskBoard) (id : Uuid) :
    (board.step (.killSignal id)).shared.tasks = board.shared.tasks := by
  rw [step]
  split
  · rfl
  · exact killSignal_tasks board.registry board.shared id

/-- What the event does to the task of each number. -/
theorem step_effect {board : TaskBoard} (orderly : Orderly board) (event : TaskEvent) (id : Uuid) :
    Effect board event id ((board.step event).find id) := by
  cases event with
  | update given status => exact write_effect rfl id
  | killMark =>
      cases kill : board.killing with
      | none =>
          rw [step, kill]
          exact .kept
      | some mark => exact write_effect (show written board .killMark = some (mark.1, mark.2) from kill) id
  | mark given status =>
      by_cases busy : board.killing.isSome
      · rw [step, if_pos busy]
        exact .kept
      · have writes : written board (.mark given status) = some (given, status) := if_neg busy
        exact write_effect writes id
  | record given kind description => exact record_effect orderly rfl rfl id
  | spawn given kind description handle =>
      rw [step]
      split
      · exact .kept
      · exact record_effect orderly rfl rfl id
  | cleanup ttl =>
      rw [step]
      split
      · exact .kept
      · cases held : TaskBoard.find _ id with
        | none => exact .gone
        | some task =>
            rw [← find?_of_sublist List.filter_sublist orderly.distinct held]
            exact .kept
  | killSignal given =>
      rw [find, SharedTasks.find, step_killSignal_tasks]
      exact .kept
  | unregister given =>
      rw [step]
      split
      · exact .kept
      · exact .kept
  | refresh =>
      rw [step]
      split
      · exact .kept
      · exact .kept
  | passes elapsed => exact .kept
  | register given token => exact .kept

theorem record_distinct {board : TaskBoard} (orderly : Orderly board) (state : TaskState) :
    ((board.record state).shared.tasks.map TaskState.id).Nodup := by
  obtain ⟨tasks, inside, unique, -⟩ := board.shared.recordGlobalTask_sublist state
  exact (unique orderly.distinct).sublist (inside.map TaskState.id)

theorem update_distinct {board : TaskBoard} (orderly : Orderly board) (id : Uuid)
    (status : TaskStatus) : ((board.update id status).shared.tasks.map TaskState.id).Nodup := by
  have same := map_id_changeTask board.shared.tasks id (TaskState.setStatus board.shared.now status)
    fun _ own => own
  exact same ▸ orderly.distinct

theorem step_distinct {board : TaskBoard} (orderly : Orderly board) (event : TaskEvent) :
    ((board.step event).shared.tasks.map TaskState.id).Nodup := by
  cases event with
  | record id kind description => exact record_distinct orderly _
  | update id status => exact update_distinct orderly id status
  | spawn id kind description handle =>
      rw [step]
      split
      · exact orderly.distinct
      · exact record_distinct orderly _
  | killMark =>
      rw [step]
      split
      · exact update_distinct orderly _ _
      · exact orderly.distinct
  | mark id status =>
      rw [step]
      split
      · exact orderly.distinct
      · exact update_distinct orderly id status
  | cleanup ttl =>
      rw [step]
      split
      · exact orderly.distinct
      · exact orderly.distinct.sublist (List.filter_sublist.map TaskState.id)
  | killSignal id =>
      rw [step_killSignal_tasks]
      exact orderly.distinct
  | unregister id =>
      rw [step]
      split
      · exact orderly.distinct
      · exact orderly.distinct
  | refresh =>
      rw [step]
      split
      · exact orderly.distinct
      · exact orderly.distinct
  | passes elapsed => exact orderly.distinct
  | register id token => exact orderly.distinct

theorem Orderly.step {board : TaskBoard} (orderly : Orderly board) (event : TaskEvent) :
    Orderly (board.step event) := by
  refine ⟨step_distinct orderly event, ?_⟩
  intro id task held ended
  have effect := step_effect orderly event id
  rw [held] at effect
  generalize after : some task = found at effect
  cases effect with
  | kept => exact orderly.timed id task after.symm ended
  | gone => cases after
  | recorded given records timed =>
      cases after
      exact timed ended
  | wrote status writes =>
      obtain ⟨old, -, rfl⟩ := Option.map_eq_some_iff.mp after.symm
      exact setStatus_timed board.shared.now status old ended

/-- A finished task keeps its status, as far as it has to, and its time, until it is recorded again
or taken away. -/
def Stays (keeps : TaskStatus → TaskStatus → Prop) (maxCapacity : Nat) (events : List TaskEvent) :
    Prop :=
  ∀ front middle rest, events = front ++ middle ++ rest →
    ∀ id task, (run step (start maxCapacity) front).find id = some task →
      isTerminal task.status = true → (∀ event ∈ middle, recorded event ≠ some id) →
      ∀ last, (run step (start maxCapacity) (front ++ middle)).find id = some last →
        keeps task.status last.status ∧ last.finishedAt.isSome

/-- What is written over a finished task keeps its status. -/
def Respects (keeps : TaskStatus → TaskStatus → Prop) (board : TaskBoard) (event : TaskEvent) : Prop :=
  ∀ id status, written board event = some (id, status) → ∀ task, board.find id = some task →
    isTerminal task.status = true → keeps task.status status

theorem start_orderly (maxCapacity : Nat) : Orderly (start maxCapacity) := by
  refine ⟨List.nodup_nil, ?_⟩
  intro id task held
  cases held

theorem run_orderly (maxCapacity : Nat) (events : List TaskEvent) :
    Orderly (run step (start maxCapacity) events) := by
  induction events using List.reverseRecOn with
  | nil => exact start_orderly maxCapacity
  | append_singleton events event ih =>
      rw [run_concat]
      exact ih.step event

/-- An event that writes a status records no task. -/
theorem recorded_of_written {board : TaskBoard} {event : TaskEvent} {note : Uuid × TaskStatus}
    (writes : written board event = some note) : recorded event = none := by
  cases event with
  | record | spawn => cases writes
  | passes | register | update | unregister | refresh | killSignal | killMark | mark | cleanup => rfl

/-- A task that was taken away does not come back without a record. -/
theorem step_missing {board : TaskBoard} (orderly : Orderly board) {event : TaskEvent} {id : Uuid}
    (missing : board.find id = none) (other : recorded event ≠ some id) :
    (board.step event).find id = none := by
  have effect := step_effect orderly event id
  generalize (board.step event).find id = found at effect
  cases effect with
  | kept => exact missing
  | gone => rfl
  | recorded given records timed => exact absurd records other
  | wrote status writes =>
      rw [missing]
      rfl

section Keeps

variable {keeps : TaskStatus → TaskStatus → Prop}
  (refl : ∀ status, isTerminal status = true → keeps status status)
  (trans : ∀ first second third, keeps first second → keeps second third → keeps first third)
  (closed : ∀ first second, isTerminal first = true → keeps first second → isTerminal second = true)

include refl closed in
/-- One event keeps a finished task. -/
theorem step_keeps {board : TaskBoard} (orderly : Orderly board) {event : TaskEvent}
    (respects : Respects keeps board event) {id : Uuid} {task last : TaskState}
    (held : board.find id = some task) (ended : isTerminal task.status = true)
    (other : recorded event ≠ some id) (after : (board.step event).find id = some last) :
    keeps task.status last.status ∧ isTerminal last.status = true := by
  have effect := step_effect orderly event id
  rw [after] at effect
  generalize kept : some last = found at effect
  cases effect with
  | kept =>
      rw [held] at kept
      cases kept
      exact ⟨refl _ ended, ended⟩
  | gone => cases kept
  | recorded given records timed => exact absurd records other
  | wrote status writes =>
      rw [held] at kept
      cases kept
      have allowed := respects id status writes task held ended
      exact ⟨allowed, closed _ _ ended allowed⟩

include refl trans closed in
/-- A part of a run without a record keeps a finished task. -/
theorem run_keeps (maxCapacity : Nat) (front middle : List TaskEvent)
    (respects : Throughout
      (fun before event => Respects keeps (run step (start maxCapacity) before) event) (front ++ middle))
    {id : Uuid} {task : TaskState}
    (held : (run step (start maxCapacity) front).find id = some task)
    (ended : isTerminal task.status = true) (other : ∀ event ∈ middle, recorded event ≠ some id)
    {last : TaskState} (after : (run step (start maxCapacity) (front ++ middle)).find id = some last) :
    keeps task.status last.status ∧ isTerminal last.status = true := by
  induction middle using List.reverseRecOn generalizing last with
  | nil =>
      rw [List.append_nil, held] at after
      cases after
      exact ⟨refl _ ended, ended⟩
  | append_singleton middle event ih =>
      rw [← List.append_assoc] at respects after
      rw [run_concat] at after
      have orderly := run_orderly maxCapacity (front ++ middle)
      have apart : recorded event ≠ some id := other event (by simp)
      cases before : (run step (start maxCapacity) (front ++ middle)).find id with
      | none =>
          rw [step_missing orderly before apart] at after
          cases after
      | some mid =>
          have kept := ih respects.front (fun event inside => other event (by simp [inside])) before
          have now := step_keeps refl closed orderly respects.last before kept.2 apart after
          exact ⟨trans _ _ _ kept.1 now.1, now.2⟩

include refl trans closed in
theorem stays_iff (maxCapacity : Nat) (events : List TaskEvent) :
    Stays keeps maxCapacity events ↔
      Throughout (fun before event => Respects keeps (run step (start maxCapacity) before) event)
        events := by
  constructor
  · intro stays before event after same id status writes task held ended
    have next := step_written writes id
    rw [if_pos rfl, held, ← run_concat step] at next
    have kept := stays before [event] after (by simp [same]) id task held ended
      (by simp [recorded_of_written writes]) _ next
    exact kept.1
  · intro respects front middle rest same id task held ended other last after
    subst same
    have kept := run_keeps refl trans closed maxCapacity front middle respects.initial held ended
      other after
    exact ⟨kept.1, (run_orderly maxCapacity (front ++ middle)).timed id last after kept.2⟩

end Keeps

/-- Tasks that ended stay ended exactly when no other status than an end is written over one, and
they keep their status exactly when no other status at all is written over one. -/
theorem terminal_absorbing (maxCapacity : Nat) (events : List TaskEvent) :
    (Stays (fun _ status => isTerminal status = true) maxCapacity events ↔
      Throughout (fun before event => Respects (fun _ status => isTerminal status = true)
        (run step (start maxCapacity) before) event) events) ∧
    (Stays Eq maxCapacity events ↔
      Throughout (fun before event => Respects Eq (run step (start maxCapacity) before) event)
        events) := by
  constructor
  · exact stays_iff (fun _ ended => ended) (fun _ _ _ _ ended => ended) (fun _ _ _ ended => ended)
      maxCapacity events
  · refine stays_iff (fun _ _ => rfl) (fun _ _ _ => Eq.trans) ?_ maxCapacity events
    rintro first _ ended rfl
    exact ended

/-- A kill sends its signal, the executor finishes, and then the kill marks the task. -/
def lateKill : List TaskEvent :=
  [.register 1 7, .killSignal 1, .update 1 .killed, .unregister 1, .killMark]

/-- The board with a task that began. -/
def oneTask : TaskBoard :=
  { start 200 with shared := { (start 200).shared with tasks := [.begun 1 .shellExec "build" 0] } }

theorem run_oneTask (events : List TaskEvent) :
    run step (start 200) (.record 1 .shellExec "build" :: events) = run step oneTask events := by
  have one : newestTasks [TaskState.begun 1 .shellExec "build" 0] = [.begun 1 .shellExec "build" 0] := by
    unfold newestTasks
    rfl
  show run step { start 200 with shared := { (start 200).shared with
    tasks := newestTasks [.begun 1 .shellExec "build" 0] } } events = _
  rw [one]
  rfl

/-- The task that the executor finished is displayed as cancelling, however long it waits. -/
theorem lateKill_cancelling :
    ¬Stays (fun _ status => isTerminal status = true) 200
      (.record 1 .shellExec "build" :: lateKill) ∧
    ∀ elapsed ttl, (run step (start 200) (.record 1 .shellExec "build" ::
      lateKill ++ [.passes elapsed, .cleanup ttl])).registry.displayed
        (run step (start 200) (.record 1 .shellExec "build" ::
          lateKill ++ [.passes elapsed, .cleanup ttl])).shared 1 = some .cancelling := by
  constructor
  · intro stays
    have before : (run step (start 200) (.record 1 .shellExec "build" :: lateKill.take 4)).find 1 =
        some ⟨1, .shellExec, "build", .killed, 0, some 0⟩ := by
      rw [run_oneTask]
      rfl
    have after : (run step (start 200) (.record 1 .shellExec "build" :: lateKill)).find 1 =
        some ⟨1, .shellExec, "build", .cancelling, 0, none⟩ := by
      rw [run_oneTask]
      rfl
    have kept := stays (.record 1 .shellExec "build" :: lateKill.take 4) [.killMark] [] rfl 1 _
      before rfl (by decide) _ after
    exact absurd kept.1 (by decide)
  · intro elapsed ttl
    rw [List.cons_append, run_oneTask]
    rfl

end TaskBoard

end Daemon
