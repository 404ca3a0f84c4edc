import SynthHiresBridge.Daemon.ProcOps
import SynthHiresBridge.Proof.TaskStatus

namespace Daemon

open Transition

namespace ProcEngine

/-- The state that a monitor found. -/
def MonitorStage.found : MonitorStage → Option ProcState
  | .watching => none
  | .ended state | .published state | .reported state => some state

/-- The state that a monitor tried to put into the map. -/
def MonitorStage.tried : MonitorStage → Option ProcState
  | .watching | .ended _ => none
  | .published state | .reported state => some state

theorem Ending.state_ended (ending : Ending) : ending.state ≠ .running := by
  cases ending with
  | cancelled => nofun
  | error reason => nofun
  | exited code => cases code with
    | none => nofun
    | some code => nofun

theorem ProcState.taskStatus_terminal {state : ProcState} (ended : state ≠ .running) :
    isTerminal state.taskStatus = true := by
  cases state with
  | running => exact absurd rfl ended
  | exited code => rfl
  | killed => rfl
  | failed reason => rfl

theorem ProcState.label_running {state : ProcState} (shown : state.label = "running") :
    state = .running := by
  cases state with
  | running => rfl
  | exited code => exact absurd shown (show "exited" ≠ "running" by decide)
  | killed => exact absurd shown (by decide)
  | failed reason => exact absurd shown (show "failed" ≠ "running" by decide)

namespace ProcWorld

/-- What is known about the start, the handle and the task of one identifier. -/
structure Good (launch : Option Launch) (handle : Option ProcHandle) (task : Option TaskState)
    (inserting : Prop) : Prop where
  inserted : handle.isSome → ∃ begun, launch = some begun ∧ begun.stage = .inserted
  registered : inserting → ∃ begun, launch = some begun ∧ begun.stage = .registered
  found : ∀ begun state, launch = some begun → begun.monitor.found = some state → state ≠ .running
  tried : ∀ begun state, launch = some begun → begun.monitor.tried = some state →
    ∃ held, handle = some held ∧ held.state = state
  reported : ∀ begun state ended, launch = some begun → begun.monitor = .reported state →
    task = some ended → isTerminal ended.status = true

/-- A monitor tries the lock while it is free and the handle is in the map, and nobody writes
another status than an end over the task of a process that ended. -/
def Permits (world : ProcWorld) : ProcEvent → Prop
  | .publish id => (∃ launch state, world.launches.lookup id = some launch ∧
      launch.monitor = .ended state) → world.holder = none ∧ (world.procs.lookup id).isSome
  | .tasks event => ∀ id status, world.board.written event = some (id, status) →
      (world.launches.lookup id).isSome → ∀ task, world.board.find id = some task →
        isTerminal task.status = true → isTerminal status = true
  | _ => True

/-- The end of a process is in its handle and in its task, and operations see it. -/
structure Finished (world : ProcWorld) (id : Uuid) (state : ProcState) : Prop where
  ended : state ≠ .running
  handle : ∃ handle, world.procs.lookup id = some handle ∧ handle.state = state
  task : ∀ task, world.board.find id = some task → isTerminal task.status = true
  wait : ∀ expired, ∃ answer, world.wait id expired = some answer ∧
    ∀ result, answer = .ok result → result.running = false
  listed : ∃ entry ∈ world.list, entry.id = id
  list : ∀ entry ∈ world.list, entry.id = id → entry.status ≠ "running"

def Sound (world : ProcWorld) : Prop :=
  world.board.Orderly ∧ ∀ id, Good (world.launches.lookup id) (world.procs.lookup id)
    (world.board.find id) (world.holder = some (.insert id))

/-- An end stays an end. -/
def Keeps (before after : Option TaskState) : Prop :=
  (∀ task, before = some task → isTerminal task.status = true) →
    ∀ task, after = some task → isTerminal task.status = true

theorem Keeps.refl (task : Option TaskState) : Keeps task task := fun all => all

theorem step_keeps_end {board : TaskBoard} (orderly : board.Orderly) {event : TaskEvent} {id : Uuid}
    (other : TaskBoard.recorded event ≠ some id)
    (safe : ∀ status, board.written event = some (id, status) → ∀ task, board.find id = some task →
      isTerminal task.status = true → isTerminal status = true) :
    Keeps (board.find id) ((board.step event).find id) := by
  intro before task after
  have effect := TaskBoard.step_effect orderly event id
  rw [after] at effect
  generalize same : some task = found at effect
  cases effect with
  | kept => exact before task same.symm
  | gone => cases same
  | recorded given records timed => exact absurd records other
  | wrote status writes =>
      obtain ⟨old, held, rfl⟩ := Option.map_eq_some_iff.mp same.symm
      exact safe status writes old held (before old held)

theorem Good.mono {launch : Option Launch} {handle : Option ProcHandle} {task after : Option TaskState}
    {inserting still : Prop} (good : Good launch handle task inserting) (less : still → inserting)
    (keeps : Keeps task after) : Good launch handle after still := by
  refine ⟨good.inserted, fun now => good.registered (less now), good.found, good.tried, ?_⟩
  intro begun state ended launched reported
  exact keeps (fun old held => good.reported begun state old launched reported held) ended

/-- A step that works on one identifier leaves the others as they are. -/
theorem Sound.change {world after : ProcWorld} (sound : Sound world) (orderly : after.board.Orderly)
    (id : Uuid)
    (others : ∀ other, other ≠ id → after.launches.lookup other = world.launches.lookup other ∧
      after.procs.lookup other = world.procs.lookup other ∧
      (after.holder = some (.insert other) → world.holder = some (.insert other)) ∧
      Keeps (world.board.find other) (after.board.find other))
    (own : Good (after.launches.lookup id) (after.procs.lookup id) (after.board.find id)
      (after.holder = some (.insert id))) : Sound after := by
  refine ⟨orderly, ?_⟩
  intro other
  by_cases same : other = id
  · rw [same]
    exact own
  · obtain ⟨launched, handled, held, keeps⟩ := others other same
    rw [launched, handled]
    exact (sound.2 other).mono held keeps

@[simp] theorem lookup_setLaunch (world : ProcWorld) (id other : Uuid) (launch : Launch) :
    (world.setLaunch id launch).launches.lookup other =
      if other = id then some launch else world.launches.lookup other := by
  by_cases same : other = id
  · rw [if_pos same, same]
    exact AList.lookup_insert _
  · rw [if_neg same]
    exact AList.lookup_insert_ne same

/-- A step that takes one start or monitor further, and the tasks with it. -/
theorem Sound.advance {world : ProcWorld} (sound : Sound world) {id : Uuid} {launch : Launch}
    {board : TaskBoard} (orderly : board.Orderly)
    (others : ∀ other, other ≠ id → Keeps (world.board.find other) (board.find other))
    (own : Good (some launch) (world.procs.lookup id) (board.find id)
      (world.holder = some (.insert id))) :
    Sound { world.setLaunch id launch with board := board } := by
  apply sound.change orderly id
  · intro other apart
    refine ⟨?_, rfl, fun held => held, others other apart⟩
    exact (lookup_setLaunch world id other launch).trans (if_neg apart)
  · have launched := (lookup_setLaunch world id id launch).trans (if_pos rfl)
    exact launched ▸ own

/-- A start that has not inserted its handle has no handle, and its monitor has not tried. -/
theorem Good.early {begun : Launch} {handle : Option ProcHandle} {task : Option TaskState}
    {inserting : Prop} (good : Good (some begun) handle task inserting)
    (early : begun.stage ≠ .inserted) : handle = none ∧ begun.monitor.tried = none := by
  have missing : handle = none := by
    cases held : handle with
    | none => rfl
    | some inside =>
        obtain ⟨other, same, late⟩ := good.inserted (by rw [held]; rfl)
        cases same
        exact absurd late early
  refine ⟨missing, ?_⟩
  cases tried : begun.monitor.tried with
  | none => rfl
  | some state =>
      obtain ⟨held, inside, -⟩ := good.tried begun state rfl tried
      rw [missing] at inside
      cases inside

theorem MonitorStage.tried_reported {monitor : MonitorStage} {state : ProcState}
    (reported : monitor = .reported state) : monitor.tried = some state := by
  rw [reported]
  rfl

/-- A start without a handle. -/
theorem Good.of_missing {begun : Launch} {task : Option TaskState} {inserting : Prop}
    (registered : inserting → begun.stage = .registered)
    (found : ∀ state, begun.monitor.found = some state → state ≠ .running)
    (untried : begun.monitor.tried = none) : Good (some begun) none task inserting := by
  refine ⟨nofun, fun now => ⟨begun, rfl, registered now⟩, ?_, ?_, ?_⟩
  · rintro other state same
    cases same
    exact found state
  · rintro other state same tried
    cases same
    rw [untried] at tried
    cases tried
  · rintro other state ended same reported
    cases same
    rw [MonitorStage.tried_reported reported] at untried
    cases untried

theorem Good.nothing {task : Option TaskState} {inserting : Prop} (idle : ¬inserting) :
    Good none none task inserting := by
  refine ⟨?_, fun now => absurd now idle, ?_, ?_, ?_⟩
  · intro inside
    cases inside
  · intro begun state same
    cases same
  · intro begun state same
    cases same
  · intro begun state ended same
    cases same

theorem start_sound (maxCapacity : Nat) : Sound (start maxCapacity) := by
  refine ⟨TaskBoard.start_orderly maxCapacity, ?_⟩
  intro id
  have launched : (start maxCapacity).launches.lookup id = none := AList.lookup_empty id
  have handled : (start maxCapacity).procs.lookup id = none := AList.lookup_empty id
  rw [launched, handled]
  apply Good.nothing
  intro held
  cases held

theorem Sound.start {world : ProcWorld} (sound : Sound world) {id : Uuid} {launch : Launch}
    (fresh : world.launches.lookup id = none) (watching : launch.monitor = .watching) : Sound (world.setLaunch id launch) := by
  have good := sound.2 id
  rw [fresh] at good
  have missing : world.procs.lookup id = none := by
    cases held : world.procs.lookup id with
    | none => rfl
    | some handle =>
        obtain ⟨begun, same, -⟩ := good.inserted (by rw [held]; rfl)
        cases same
  apply sound.advance sound.1 fun other _ => .refl _
  rw [missing]
  apply Good.of_missing
  · intro now
    obtain ⟨begun, same, -⟩ := good.registered now
    cases same
  · rw [watching]
    nofun
  · rw [watching]
    rfl

/-- A start goes on before its handle is inserted. -/
theorem Sound.proceed {world : ProcWorld} (sound : Sound world) {id : Uuid} {launch : Launch}
    (held : world.launches.lookup id = some launch) (early : launch.stage ≠ .inserted)
    (unregistered : launch.stage ≠ .registered) (stage : StartStage) {event : TaskEvent}
    (only : ∀ other, TaskBoard.recorded event = some other → other = id)
    (writes : ∀ note, world.board.written event ≠ some note) :
    Sound { world.setLaunch id { launch with stage := stage } with
      board := world.board.step event } := by
  have good := sound.2 id
  rw [held] at good
  obtain ⟨missing, untried⟩ := good.early early
  apply sound.advance (sound.1.step event)
  · intro other apart
    apply step_keeps_end sound.1
    · intro recorded
      exact apart (only other recorded)
    · intro status written
      exact absurd written (writes _)
  · rw [missing]
    apply Good.of_missing
    · intro now
      obtain ⟨begun, same, registered⟩ := good.registered now
      cases same
      exact absurd registered unregistered
    · intro state found
      exact good.found launch state rfl found
    · exact untried

theorem Sound.acquire {world : ProcWorld} (sound : Sound world) {critical : Critical}
    (awaits : world.awaits critical = true) : Sound { world with holder := some critical } := by
  refine ⟨sound.1, ?_⟩
  intro id
  have good := sound.2 id
  refine ⟨good.inserted, ?_, good.found, good.tried, good.reported⟩
  intro now
  cases now
  rw [ProcWorld.awaits, Option.any_eq_true] at awaits
  obtain ⟨launch, held, stage⟩ := awaits
  exact ⟨launch, held, of_decide_eq_true stage⟩

theorem Sound.unlock {world : ProcWorld} (sound : Sound world) :
    Sound { world with holder := none } := by
  refine ⟨sound.1, ?_⟩
  intro id
  apply (sound.2 id).mono _ (.refl _)
  intro held
  cases held

/-- The handle of a registered start is inserted while it runs. -/
theorem Sound.insert {world : ProcWorld} (sound : Sound world) {id : Uuid}
    (holds : world.holder = some (.insert id)) : Sound { world.insert id with holder := none } := by
  have good := sound.2 id
  obtain ⟨launch, held, registered⟩ := good.registered holds
  rw [held] at good
  obtain ⟨-, untried⟩ := good.early (by rw [registered]; decide)
  let next : Launch := { launch with stage := .inserted }
  let handle : ProcHandle := ⟨launch.command, launch.args, .running, launch.cancel⟩
  have launched : (world.launches.insert id next).lookup id = some next := AList.lookup_insert _
  have handled : (world.procs.insert id handle).lookup id = some handle := AList.lookup_insert _
  have done : Sound ⟨world.board, world.launches.insert id next, world.procs.insert id handle, none⟩ := by
    refine sound.change ?_ id ?_ ?_
    · exact sound.1
    · intro other apart
      refine ⟨AList.lookup_insert_ne apart, AList.lookup_insert_ne apart, ?_, .refl _⟩
      intro free
      cases free
    · dsimp only
      rw [launched, handled]
      refine ⟨fun _ => ⟨next, rfl, rfl⟩, ?_, ?_, ?_, ?_⟩
      · intro free
        cases free
      · rintro begun state same found
        cases same
        exact good.found launch state rfl found
      · rintro begun state same tried
        cases same
        rw [show next.monitor.tried = none from untried] at tried
        cases tried
      · rintro begun state ended same reported
        cases same
        rw [MonitorStage.tried_reported reported] at untried
        cases untried
  rw [ProcWorld.insert, held]
  exact done

theorem Sound.signal {world : ProcWorld} (sound : Sound world) (id : Uuid) :
    Sound (world.signal id).2 := by
  rw [ProcWorld.signal]
  split
  · exact sound
  · split
    · exact sound
    · exact ⟨⟨sound.1.distinct, sound.1.timed⟩, sound.2⟩

theorem Sound.release {world : ProcWorld} (sound : Sound world) : Sound (world.step .release) := by
  cases held : world.holder with
  | none =>
      rw [step, held]
      exact sound
  | some critical =>
      rw [step, held]
      cases critical with
      | insert id => exact sound.insert held
      | signal id => exact (sound.signal id).unlock
      | logs id => exact sound.unlock
      | wait id => exact sound.unlock
      | list => exact sound.unlock

/-- A reader or a monitor goes on without touching the handle. -/
theorem Sound.observe {world : ProcWorld} (sound : Sound world) {id : Uuid} {launch next : Launch}
    (held : world.launches.lookup id = some launch) (stage : next.stage = launch.stage)
    (found : ∀ state, next.monitor.found = some state → state ≠ .running)
    (tried : ∀ state, next.monitor.tried = some state → launch.monitor.tried = some state)
    (reported : ∀ state, next.monitor = .reported state → launch.monitor = .reported state) :
    Sound (world.setLaunch id next) := by
  have good := sound.2 id
  rw [held] at good
  apply sound.advance sound.1 fun other _ => .refl _
  refine ⟨?_, ?_, ?_, ?_, ?_⟩
  · intro inside
    obtain ⟨begun, same, late⟩ := good.inserted inside
    cases same
    exact ⟨next, rfl, stage.trans late⟩
  · intro now
    obtain ⟨begun, same, registered⟩ := good.registered now
    cases same
    exact ⟨next, rfl, stage.trans registered⟩
  · rintro begun state same was
    cases same
    exact found state was
  · rintro begun state same was
    cases same
    exact good.tried launch state rfl (tried state was)
  · rintro begun state ended same was
    cases same
    exact good.reported launch state ended rfl (reported state was)

/-- The monitor puts the state into its handle when the lock is free and the handle is there. -/
theorem Sound.publish {world : ProcWorld} (sound : Sound world) {id : Uuid} {launch : Launch}
    {state : ProcState} (held : world.launches.lookup id = some launch)
    (ended : launch.monitor = .ended state) (free : world.holder = none)
    (inside : (world.procs.lookup id).isSome) :
    Sound ((world.publish id state).setLaunch id { launch with monitor := .published state }) := by
  have good := sound.2 id
  obtain ⟨handle, handled⟩ := Option.isSome_iff_exists.mp inside
  let next : Launch := { launch with monitor := .published state }
  let change : Uuid → ProcHandle → ProcHandle := fun key handle =>
    if key = id then { handle with state := state } else handle
  have stored : (world.procs.update change).lookup id = some { handle with state := state } := by
    rw [Table.lookup_update, handled]
    exact congrArg some (if_pos rfl)
  have launched : (world.launches.insert id next).lookup id = some next := AList.lookup_insert _
  have done : Sound ⟨world.board, world.launches.insert id next, world.procs.update change,
      world.holder⟩ := by
    refine sound.change ?_ id ?_ ?_
    · exact sound.1
    · intro other apart
      refine ⟨AList.lookup_insert_ne apart, ?_, fun now => now, .refl _⟩
      rw [Table.lookup_update, show change other = fun row => row from funext fun row => if_neg apart]
      exact Option.map_id'
    · dsimp only
      rw [launched, stored]
      obtain ⟨begun, same, late⟩ := good.inserted inside
      cases held.symm.trans same
      refine ⟨fun _ => ⟨next, rfl, late⟩, ?_, ?_, ?_, ?_⟩
      · intro now
        rw [free] at now
        cases now
      · rintro begun found same was
        cases same
        cases was
        exact good.found launch state held (by rw [ended]; rfl)
      · rintro begun found same was
        cases same
        cases was
        exact ⟨_, rfl, rfl⟩
      · rintro begun found task same was
        cases same
        cases was
  rw [ProcWorld.publish, if_pos (by rw [free]; rfl)]
  exact done

/-- The monitor reports the end of its task. -/
theorem Sound.report {world : ProcWorld} (sound : Sound world) {id : Uuid} {launch : Launch}
    {state : ProcState} (held : world.launches.lookup id = some launch)
    (published : launch.monitor = .published state) :
    Sound { world.setLaunch id { launch with monitor := .reported state } with
      board := world.board.step (.update id state.taskStatus) } := by
  have good := sound.2 id
  have ended := good.found launch state held (by rw [published]; rfl)
  have written : ∀ other, (world.board.step (.update id state.taskStatus)).find other = _ :=
    TaskBoard.step_written (show world.board.written (.update id state.taskStatus) =
      some (id, state.taskStatus) from rfl)
  apply sound.advance (sound.1.step _)
  · intro other apart
    rw [written, if_neg apart]
    exact .refl _
  · rw [written, if_pos rfl]
    rw [held] at good
    refine ⟨?_, ?_, ?_, ?_, ?_⟩
    · intro inside
      obtain ⟨begun, same, late⟩ := good.inserted inside
      cases same
      exact ⟨_, rfl, late⟩
    · intro now
      obtain ⟨begun, same, registered⟩ := good.registered now
      cases same
      exact ⟨_, rfl, registered⟩
    · rintro begun found same was
      cases same
      cases was
      exact ended
    · rintro begun found same was
      cases same
      cases was
      exact good.tried launch state rfl (by rw [published]; rfl)
    · rintro begun found task same was stored
      obtain ⟨old, -, rfl⟩ := Option.map_eq_some_iff.mp stored
      exact state.taskStatus_terminal ended

/-- Others leave the end of a process in its task. -/
theorem Sound.tasks {world : ProcWorld} (sound : Sound world) {event : TaskEvent}
    (others : world.others event = true) (permits : world.Permits (.tasks event)) :
    Sound { world with board := world.board.step event } := by
  refine ⟨sound.1.step event, ?_⟩
  intro id
  cases launched : world.launches.lookup id with
  | none =>
      have good := sound.2 id
      rw [launched] at good
      refine ⟨good.inserted, good.registered, good.found, good.tried, ?_⟩
      intro begun state ended same
      cases same
  | some launch =>
      have good := sound.2 id
      rw [launched] at good
      apply good.mono (fun now => now)
      apply step_keeps_end sound.1
      · intro recorded
        have foreign : (world.launches.lookup id).isNone = true := by
          cases event with
          | record given kind description =>
              cases recorded
              exact others
          | spawn given kind description handle =>
              cases recorded
              exact others
          | passes | register | update | unregister | refresh | killSignal | killMark | mark
          | cleanup => cases recorded
        rw [launched] at foreign
        cases foreign
      · intro status writes
        exact permits id status writes (by rw [launched]; rfl)

theorem Sound.step {world : ProcWorld} (sound : Sound world) {event : ProcEvent}
    (permits : world.Permits event) : Sound (world.step event) := by
  cases event with
  | start id cancel gate command args spawn =>
      rw [ProcWorld.step]
      split
      · rename_i fresh
        exact sound.start fresh rfl
      · exact sound
  | record id =>
      rw [ProcWorld.step]
      split
      · rename_i launch held
        split
        · rename_i stage
          apply sound.proceed held (by rw [stage]; decide) (by rw [stage]; decide) .recorded
          · intro other recorded
            exact (Option.some.inj recorded).symm
          · intro note written
            cases written
        · exact sound
      · exact sound
  | register id =>
      rw [ProcWorld.step]
      split
      · rename_i launch held
        split
        · rename_i stage
          apply sound.proceed held (by rw [stage]; decide) (by rw [stage]; decide) .registered
          · intro other recorded
            cases recorded
          · intro note written
            cases written
        · exact sound
      · exact sound
  | acquire critical =>
      rw [ProcWorld.step]
      split
      · rename_i free
        exact sound.acquire (Bool.and_eq_true_iff.mp free).2
      · exact sound
  | release => exact sound.release
  | line id line =>
      rw [ProcWorld.step]
      split
      · rename_i launch held
        refine sound.observe held ?_ ?_ ?_ ?_
        · rfl
        · intro state found
          exact (sound.2 id).found launch state held found
        · exact fun state tried => tried
        · exact fun state reported => reported
      · exact sound
  | ends id ending =>
      rw [ProcWorld.step]
      split
      · rename_i launch held
        split
        · refine sound.observe held ?_ ?_ ?_ ?_
          · rfl
          · intro state found
            cases found
            exact ending.state_ended
          · intro state tried
            cases tried
          · intro state reported
            cases reported
        · exact sound
      · exact sound
  | publish id =>
      rw [ProcWorld.step]
      split
      · rename_i launch held
        split
        · rename_i state ended
          obtain ⟨free, inside⟩ := permits ⟨launch, state, held, ended⟩
          exact sound.publish held ended free inside
        · exact sound
      · exact sound
  | report id =>
      rw [ProcWorld.step]
      split
      · rename_i launch held
        split
        · rename_i state published
          exact sound.report held published
        · exact sound
      · exact sound
  | tasks event =>
      rw [ProcWorld.step]
      split
      · rename_i others
        exact sound.tasks others permits
      · exact sound

/-- A monitor that is done stays done, whichever start or monitor goes on. -/
theorem reported_setLaunch {launches : Table Uuid Launch} {id given : Uuid} {launch next : Launch}
    {state : ProcState} (held : launches.lookup id = some launch)
    (reported : launch.monitor = .reported state)
    (moves : ∀ begun, launches.lookup given = some begun → begun.monitor = .reported state →
      next.monitor = .reported state) :
    ∃ after, (launches.insert given next).lookup id = some after ∧
      after.monitor = .reported state := by
  by_cases same : id = given
  · subst same
    exact ⟨next, AList.lookup_insert _, moves launch held reported⟩
  · exact ⟨launch, (AList.lookup_insert_ne same).trans held, reported⟩

/-- A launch that goes on keeps a monitor that is done. -/
theorem reported_proceed {launches : Table Uuid Launch} {id given : Uuid}
    {launch begun next : Launch} {state : ProcState} (held : launches.lookup id = some launch)
    (reported : launch.monitor = .reported state) (other : launches.lookup given = some begun)
    (moves : begun.monitor = .reported state → next.monitor = .reported state) :
    ∃ after, (launches.insert given next).lookup id = some after ∧
      after.monitor = .reported state := by
  apply reported_setLaunch held reported
  rintro found same done
  cases other.symm.trans same
  exact moves done

theorem publish_launches (world : ProcWorld) (id : Uuid) (state : ProcState) :
    (world.publish id state).launches = world.launches := by
  rw [publish]
  split
  · rfl
  · rfl

/-- The holder of the lock leaves a monitor that is done. -/
theorem release_reported (world : ProcWorld) {id : Uuid} {launch : Launch} {state : ProcState}
    (held : world.launches.lookup id = some launch) (reported : launch.monitor = .reported state) :
    ∃ next, (world.step .release).launches.lookup id = some next ∧
      next.monitor = .reported state := by
  have stays : ∃ next, world.launches.lookup id = some next ∧ next.monitor = .reported state :=
    ⟨launch, held, reported⟩
  cases holder : world.holder with
  | none =>
      rw [step, holder]
      exact stays
  | some critical =>
      rw [step, holder]
      cases critical with
      | insert given =>
          show ∃ next, (world.insert given).launches.lookup id = some next ∧ _
          rw [insert]
          split
          · rename_i begun other
            exact reported_proceed held reported other fun done => done
          · exact stays
      | signal given =>
          show ∃ next, (world.signal given).2.launches.lookup id = some next ∧ _
          rw [signal]
          split
          · exact stays
          · split
            · exact stays
            · exact stays
      | logs | wait | list => exact stays

theorem step_reported (world : ProcWorld) (event : ProcEvent) {id : Uuid} {launch : Launch}
    {state : ProcState} (held : world.launches.lookup id = some launch)
    (reported : launch.monitor = .reported state) :
    ∃ next, (world.step event).launches.lookup id = some next ∧ next.monitor = .reported state := by
  have stays : ∃ next, world.launches.lookup id = some next ∧ next.monitor = .reported state :=
    ⟨launch, held, reported⟩
  cases event with
  | start given cancel gate command args spawn =>
      rw [step]
      split
      · rename_i fresh
        apply reported_setLaunch held reported
        intro begun other
        cases other.symm.trans fresh
      · exact stays
  | record given =>
      rw [step]
      split
      · rename_i begun other
        split
        · exact reported_proceed held reported other fun done => done
        · exact stays
      · exact stays
  | register given =>
      rw [step]
      split
      · rename_i begun other
        split
        · exact reported_proceed held reported other fun done => done
        · exact stays
      · exact stays
  | acquire critical =>
      rw [step]
      split
      · exact stays
      · exact stays
  | release => exact release_reported world held reported
  | line given line =>
      rw [step]
      split
      · rename_i begun other
        exact reported_proceed held reported other fun done => done
      · exact stays
  | ends given ending =>
      rw [step]
      split
      · rename_i begun other
        split
        · rename_i watching
          apply reported_proceed held reported other
          intro done
          cases watching.1.symm.trans done
        · exact stays
      · exact stays
  | publish given =>
      rw [step]
      split
      · rename_i begun other
        split
        · rename_i ended
          rw [setLaunch, publish_launches]
          apply reported_proceed held reported other
          intro done
          cases ended.symm.trans done
        · exact stays
      · exact stays
  | report given =>
      rw [step]
      split
      · rename_i begun other
        split
        · rename_i published
          apply reported_proceed held reported other
          intro done
          cases published.symm.trans done
        · exact stays
      · exact stays
  | tasks event =>
      rw [step]
      split
      · exact stays
      · exact stays

/-- A wait for a process that does not run comes back. -/
theorem wait_ended {world : ProcWorld} {id : Uuid} {handle : ProcHandle}
    (inside : world.procs.lookup id = some handle) (ended : handle.state ≠ .running) (expired : Bool) :
    ∃ answer, world.wait id expired = some answer ∧
      ∀ result, answer = .ok result → result.running = false := by
  rw [wait, inside]
  dsimp only
  split
  · rename_i running
    exact absurd running ended
  · refine ⟨_, rfl, ?_⟩
    rintro result same
    cases same
    rfl
  · refine ⟨_, rfl, ?_⟩
    rintro result same
    cases same
    rfl
  · refine ⟨_, rfl, ?_⟩
    intro result same
    cases same

theorem mem_list {world : ProcWorld} {entry : ProcEntry} :
    entry ∈ world.list ↔ ∃ id handle, world.procs.lookup id = some handle ∧
      entry = .ofHandle id handle := by
  rw [list, List.mem_map]
  constructor
  · rintro ⟨⟨id, handle⟩, member, rfl⟩
    exact ⟨id, handle, ((world.procs.mem_select _ _ id handle).mp member).1, rfl⟩
  · rintro ⟨id, handle, inside, rfl⟩
    exact ⟨(id, handle), (world.procs.mem_select _ _ id handle).mpr ⟨inside, rfl⟩, rfl⟩

theorem Sound.finished {world : ProcWorld} (sound : Sound world) {id : Uuid} {launch : Launch}
    {state : ProcState} (held : world.launches.lookup id = some launch)
    (reported : launch.monitor = .reported state) : Finished world id state := by
  have good := sound.2 id
  have ended := good.found launch state held (by rw [reported]; rfl)
  obtain ⟨handle, inside, same⟩ := good.tried launch state held (MonitorStage.tried_reported reported)
  have going : handle.state ≠ .running := same ▸ ended
  refine ⟨ended, ⟨handle, inside, same⟩, ?_, wait_ended inside going, ?_, ?_⟩
  · intro task
    exact good.reported launch state task held reported
  · exact ⟨.ofHandle id handle, mem_list.mpr ⟨id, handle, inside, rfl⟩, rfl⟩
  · intro entry member named running
    obtain ⟨other, row, stored, rfl⟩ := mem_list.mp member
    obtain rfl : other = id := named
    cases inside.symm.trans stored
    exact going (ProcState.label_running running)

theorem run_sound (maxCapacity : Nat) (events : List ProcEvent)
    (permitted : Throughout
      (fun before event => Permits (run step (start maxCapacity) before) event) events) :
    Sound (run step (start maxCapacity) events) :=
  invariant step (start maxCapacity) _ (fun _ world => Sound world) (start_sound maxCapacity)
    (fun _ _ sound permits => sound.step permits) events permitted

theorem run_reported (world : ProcWorld) (events : List ProcEvent) {id : Uuid} {launch : Launch}
    {state : ProcState} (held : world.launches.lookup id = some launch)
    (reported : launch.monitor = .reported state) :
    ∃ next, (run step world events).launches.lookup id = some next ∧
      next.monitor = .reported state := by
  induction events generalizing world launch with
  | nil => exact ⟨launch, held, reported⟩
  | cons event rest ih =>
      obtain ⟨next, after, still⟩ := step_reported world event held reported
      exact ih (world.step event) after still

/-- Once the monitor of a process is done, the end of the process is in its handle and in its task,
and it stays there. -/
def ReportsEnds (maxCapacity : Nat) (events : List ProcEvent) : Prop :=
  ∀ front middle rest, events = front ++ middle ++ rest → ∀ id launch state,
    (run step (start maxCapacity) front).launches.lookup id = some launch →
    launch.monitor = .reported state →
    Finished (run step (start maxCapacity) (front ++ middle)) id state

theorem reportsEnds (maxCapacity : Nat) (events : List ProcEvent)
    (permitted : Throughout
      (fun before event => Permits (run step (start maxCapacity) before) event) events) :
    ReportsEnds maxCapacity events := by
  rintro front middle rest rfl id launch state held reported
  obtain ⟨next, after, still⟩ := run_reported _ middle held reported
  rw [← run_append] at after
  exact (run_sound maxCapacity (front ++ middle) permitted.initial).finished after still

/-- A start of a short command, up to the registration of its token. -/
def begins : List ProcEvent :=
  [.start 1 7 ⟨⟨["desktop.shell.execute"], [], []⟩⟩ "true" [] none, .record 1, .register 1]

def exits : List ProcEvent := [.ends 1 (.exited (some 0)), .publish 1, .report 1]

theorem reportsEnds_sample :
    ReportsEnds 200 (begins ++ [.acquire (.insert 1), .release] ++ exits) ∧
      ((run step (start 200) (begins ++ [.acquire (.insert 1), .release] ++ exits)).launches.lookup
        1).map Launch.monitor = some (.reported (.exited 0)) := by
  constructor
  · apply reportsEnds
    refine .cons trivial (.cons trivial (.cons trivial (.cons trivial (.cons trivial
      (.cons trivial (.cons ?_ (.cons trivial (.nil _))))))))
    intro ended
    exact ⟨rfl, rfl⟩
  · rfl

/-- The child ends before its handle is inserted, or while a list holds the lock, and it runs for
ever after. -/
theorem reportsEnds_missed :
    ¬ReportsEnds 200 (begins ++ exits ++ [.acquire (.insert 1), .release]) ∧
      ¬ReportsEnds 200 (begins ++ [.acquire (.insert 1), .release, .acquire .list] ++ exits) := by
  constructor
  · intro reports
    have finished := reports (begins ++ exits) [.acquire (.insert 1), .release] [] rfl 1 _ _ rfl rfl
    obtain ⟨handle, held, same⟩ := finished.handle
    cases held
    cases same
  · intro reports
    have finished := reports (begins ++ [.acquire (.insert 1), .release, .acquire .list] ++ exits)
      [] [] rfl 1 _ _ rfl rfl
    obtain ⟨handle, held, same⟩ := finished.handle
    cases held
    cases same

end ProcWorld

end ProcEngine

end Daemon
