import SynthHiresBridge.Daemon.ShellRun
import SynthHiresBridge.Transition.Run

namespace Daemon

open Transition

namespace Shell

namespace ShellRun

/-- The future waits for a pump that has not ended. -/
def Blocked (run : ShellRun) (stream : Stream) : Prop :=
  run.ended stream = false ∧ ∃ outcome, run.phase = .draining stream outcome

/-- The future waits for no pipe that a process holds, unless the group was signalled. -/
def NeverHeld (run : ShellRun) : Prop :=
  ∀ stream, run.Blocked stream → run.held stream = false ∨ run.groupSignals ≠ []

/-- A child that exits by itself leaves no process behind that holds a pipe which is drained next. -/
def LeavesNone (run : ShellRun) : Event → Prop
  | .waitReturns => run.phase = .waiting → run.status.isSome → run.stdoutEnded = false →
      run.held .stdout = false
  | .joins => ∀ outcome, run.phase = .draining .stdout outcome → run.stdoutEnded = true →
      run.stderrEnded = false → run.groupSignals = [] → run.held .stderr = false
  | _ => True

/-- The group is signalled before `terminate_child` waits for anything. -/
structure Ordered (run : ShellRun) : Prop where
  unreaped : run.phase = .waiting → run.reaped = false
  quiet : run.phase = .waiting → run.groupSignals = []
  signalling : stage run.phase = some .signalling → run.reaped = false ∨ run.groupSignals ≠ []
  signalled : ∀ later, stage run.phase = some later → later ≠ .signalling → run.groupSignals ≠ []

structure Sound (run : ShellRun) : Prop where
  ordered : run.Ordered
  neverHeld : run.NeverHeld

theorem sound_spawned (timeoutMs : Option Nat) : (spawned timeoutMs).Sound := by
  refine ⟨⟨fun _ => rfl, fun _ => rfl, nofun, nofun⟩, ?_⟩
  rintro stream ⟨-, outcome, draining⟩
  cases draining

/-- Once the group was signalled, the future may wait for anything. -/
theorem sound_signalled {run : ShellRun} (signals : run.groupSignals ≠ [])
    (left : run.phase ≠ .waiting) : run.Sound where
  ordered := ⟨fun waiting => absurd waiting left, fun waiting => absurd waiting left,
    fun _ => .inr signals, fun _ _ _ => signals⟩
  neverHeld _ _ := .inr signals

theorem sound_signalling {run : ShellRun} (reaped : run.reaped = false)
    (now : stage run.phase = some .signalling) : run.Sound where
  ordered := by
    refine ⟨fun _ => reaped, ?_, fun _ => .inl reaped, ?_⟩
    · intro waiting
      rw [waiting] at now
      cases now
    · intro later same other
      rw [now] at same
      exact absurd (Option.some.inj same).symm other
  neverHeld := by
    rintro stream ⟨-, outcome, draining⟩
    rw [draining] at now
    cases now

/-- The processes and the pumps go on, and the future stands still. -/
structure Calm (before after : ShellRun) : Prop where
  phase : after.phase = before.phase
  reaped : after.reaped = before.reaped
  signals : after.groupSignals = before.groupSignals
  released : ∀ stream, before.held stream = false → after.held stream = false
  ended : ∀ stream, before.ended stream = true → after.ended stream = true

theorem Calm.refl (run : ShellRun) : Calm run run :=
  ⟨rfl, rfl, rfl, fun _ held => held, fun _ ended => ended⟩

theorem Calm.sound {before after : ShellRun} (calm : Calm before after) (sound : before.Sound) :
    after.Sound := by
  obtain ⟨ordered, neverHeld⟩ := sound
  refine ⟨⟨?_, ?_, ?_, ?_⟩, ?_⟩
  · rw [calm.phase, calm.reaped]
    exact ordered.unreaped
  · rw [calm.phase, calm.signals]
    exact ordered.quiet
  · rw [calm.phase, calm.reaped, calm.signals]
    exact ordered.signalling
  · rw [calm.phase, calm.signals]
    exact ordered.signalled
  · rintro stream ⟨running, outcome, draining⟩
    rw [calm.phase] at draining
    have earlier : before.ended stream = false := by
      rw [← Bool.not_eq_true]
      intro ended
      rw [calm.ended stream ended] at running
      cases running
    rw [calm.signals]
    exact (neverHeld stream ⟨earlier, outcome, draining⟩).imp_left (calm.released stream)

theorem held_eq_false {run : ShellRun} {stream : Stream} :
    run.held stream = false ↔ ∀ process ∈ run.processes, process.holds stream = false := by
  rw [held, List.any_eq_false]
  simp only [Bool.not_eq_true]

theorem living_some {run : ShellRun} {pid : Nat} {process : Process}
    (found : run.living pid = some process) : process ∈ run.processes := by
  obtain ⟨there, -⟩ := Option.filter_eq_some_iff.mp found
  exact List.mem_of_getElem? there

/-- A process that lets go of its pipes gives no pipe to another one. -/
theorem held_set {run : ShellRun} {pid : Nat} {process changed : Process} {stream : Stream}
    (found : run.living pid = some process)
    (fewer : process.holds stream = false → changed.holds stream = false)
    (free : run.held stream = false) (status : Option (Option Int)) :
    ({ run with processes := run.processes.set pid changed, status } : ShellRun).held stream =
      false := by
  rw [held_eq_false] at free ⊢
  intro other member
  rcases List.mem_or_eq_of_mem_set member with old | rfl
  · exact free other old
  · exact fewer (free process (living_some found))

theorem calm_passes (run : ShellRun) (ms : Nat) : Calm run (run.step (.passes ms)) := by
  refine ⟨rfl, rfl, rfl, fun _ free => free, ?_⟩
  intro stream ended
  cases stream with
  | stdout => exact ended
  | stderr => exact ended

theorem calm_fork (run : ShellRun) (parent : Nat) : Calm run (run.step (.fork parent)) := by
  rw [step]
  split
  · exact .refl run
  · rename_i process found
    refine ⟨rfl, rfl, rfl, ?_, fun _ ended => ended⟩
    intro stream free
    rw [held_eq_false] at free ⊢
    intro other member
    rcases List.mem_append.mp member with old | new
    · exact free other old
    · -- A child has the pipes that its parent has at the fork.
      rw [List.mem_singleton.mp new]
      have inherits : ({ process with parent := some parent } : Process).holds stream =
          process.holds stream := by
        cases stream <;> rfl
      rw [inherits]
      exact free process (living_some found)

theorem calm_close (run : ShellRun) (pid : Nat) (stream : Stream) :
    Calm run (run.step (.close pid stream)) := by
  rw [step]
  split
  · exact .refl run
  · rename_i process found
    refine ⟨rfl, rfl, rfl, ?_, fun _ ended => ended⟩
    intro other free
    refine held_set found ?_ free run.status
    cases stream <;> cases other <;> simp [Process.holds, Process.close]

theorem calm_exit (run : ShellRun) (pid : Nat) (code : Option Int) :
    Calm run (run.step (.exit pid code)) := by
  rw [step]
  split
  · exact .refl run
  · rename_i process found
    refine ⟨rfl, rfl, rfl, ?_, fun _ ended => ended⟩
    intro other free
    refine held_set found ?_ free _
    cases other <;> simp [Process.holds]

theorem calm_endPump (run : ShellRun) (stream : Stream) : Calm run (run.endPump stream) := by
  cases stream with
  | stdout =>
      refine ⟨rfl, rfl, rfl, fun _ free => free, ?_⟩
      intro other ended
      cases other with
      | stdout => rfl
      | stderr => exact ended
  | stderr =>
      refine ⟨rfl, rfl, rfl, fun _ free => free, ?_⟩
      intro other ended
      cases other with
      | stdout => exact ended
      | stderr => rfl

theorem Sound.cancelled {run : ShellRun} (sound : run.Sound) : (run.step .cancelled).Sound := by
  rw [step]
  split
  · rename_i waiting
    exact sound_signalling (sound.ordered.unreaped waiting) rfl
  · exact sound

theorem Sound.timesOut {run : ShellRun} (sound : run.Sound) : run.timesOut.Sound := by
  rw [ShellRun.timesOut]
  split
  · split
    · rename_i waiting
      exact sound_signalling (sound.ordered.unreaped waiting) rfl
    · rename_i inner cancelling
      by_cases signals : run.groupSignals = []
      · have first : inner = .signalling := by
          by_contra other
          exact sound.ordered.signalled inner (by rw [cancelling]; rfl) other signals
        have reaped := (sound.ordered.signalling (by rw [cancelling, first]; rfl)).resolve_right
          (not_not_intro signals)
        exact sound_signalling reaped rfl
      · exact sound_signalled signals nofun
    · exact sound
  · exact sound

theorem enterStage_cases {run : ShellRun} {now : Stage} (inside : stage run.phase = some now)
    (next : Stage) : (run.enterStage next).groupSignals = run.groupSignals ∧
      (run.enterStage next).phase ≠ .waiting := by
  rw [enterStage]
  split
  · exact ⟨rfl, nofun⟩
  · exact ⟨rfl, nofun⟩
  · rename_i other phase
    exfalso
    rw [stage.eq_def] at inside
    split at inside
    · exact other _ ‹_›
    · exact phase _ _ ‹_›
    · cases inside

theorem sound_enterStage {run : ShellRun} {now : Stage} (inside : stage run.phase = some now)
    (signals : run.groupSignals ≠ []) (next : Stage) : (run.enterStage next).Sound := by
  obtain ⟨kept, left⟩ := enterStage_cases inside next
  exact sound_signalled (kept ▸ signals) left

theorem Sound.proceed {run : ShellRun} (sound : run.Sound) : run.proceed.Sound := by
  rw [ShellRun.proceed]
  split
  · rename_i inside
    have signals : (run.signalGroup .term).groupSignals ≠ [] := by
      rw [signalGroup]
      split
      · rename_i reaped
        exact (sound.ordered.signalling inside).resolve_left (by simp [reaped])
      · simp
    have same : stage (run.signalGroup .term).phase = some .signalling := by
      rw [signalGroup]
      split
      · exact inside
      · exact inside
    exact sound_enterStage same signals _
  · rename_i since inside
    split
    · exact sound_enterStage inside (sound.ordered.signalled _ inside nofun) _
    · exact sound
  · rename_i inside
    have earlier := sound.ordered.signalled _ inside nofun
    have signals : (run.signalGroup .kill).groupSignals ≠ [] := by
      rw [signalGroup]
      split
      · exact earlier
      · simp
    have same : stage (run.signalGroup .kill).phase = some .escalating := by
      rw [signalGroup]
      split
      · exact inside
      · exact inside
    exact sound_enterStage same signals _
  · exact sound

/-- A call of `terminate_child` that is over has signalled the group. -/
theorem sound_terminated {run : ShellRun} {now : Stage} (inside : stage run.phase = some now)
    (signals : run.groupSignals ≠ []) : (run.terminated run.phase).Sound := by
  rw [terminated.eq_def]
  split
  · exact sound_signalled signals nofun
  · exact sound_signalled signals nofun
  · rename_i other phase
    exfalso
    rw [stage.eq_def] at inside
    split at inside
    · exact other _ ‹_›
    · exact phase _ _ ‹_›
    · cases inside

theorem Sound.waitFails {run : ShellRun} (sound : run.Sound) (error : String) :
    (run.waitFails error).Sound := by
  rw [ShellRun.waitFails]
  split
  · rename_i waiting
    exact sound_signalling (sound.ordered.unreaped waiting) rfl
  · split
    · rename_i since inside
      exact sound_terminated inside (sound.ordered.signalled _ inside nofun)
    · rename_i inside
      exact sound_terminated inside (sound.ordered.signalled _ inside nofun)
    · exact sound

/-- A future that starts to drain a pipe is in order where the pipe has ended or nobody holds it. -/
theorem neverHeld_draining {run : ShellRun} {stream : Stream} {outcome : Outcome}
    (draining : run.phase = .draining stream outcome) : run.NeverHeld ↔
      (run.ended stream = false → run.held stream = false ∨ run.groupSignals ≠ []) := by
  constructor
  · intro neverHeld running
    exact neverHeld stream ⟨running, outcome, draining⟩
  · rintro released other ⟨running, found, same⟩
    rw [draining] at same
    obtain ⟨rfl, -⟩ := Phase.draining.inj same
    exact released running

theorem ordered_draining {run : ShellRun} {stream : Stream} {outcome : Outcome}
    (draining : run.phase = .draining stream outcome) : run.Ordered := by
  refine ⟨?_, ?_, ?_, ?_⟩
  · rw [draining]
    exact nofun
  · rw [draining]
    exact nofun
  · rw [draining]
    exact nofun
  · rw [draining]
    exact nofun

theorem sound_finished {run : ShellRun} {outcome : Outcome} (finished : run.phase = .finished outcome) :
    run.Sound := by
  refine ⟨⟨?_, ?_, ?_, ?_⟩, ?_⟩
  · rw [finished]
    exact nofun
  · rw [finished]
    exact nofun
  · rw [finished]
    exact nofun
  · rw [finished]
    exact nofun
  · rintro stream ⟨-, other, draining⟩
    rw [finished] at draining
    cases draining

/-- A step that is sound where the processes leave the pipes is never held just there. -/
structure Decides (run : ShellRun) (event : Event) : Prop where
  iff : (run.step event).NeverHeld ↔ run.LeavesNone event
  keeps : run.LeavesNone event → (run.step event).Sound

theorem Decides.of_sound {run : ShellRun} {event : Event} (free : run.LeavesNone event)
    (sound : (run.step event).Sound) : run.Decides event :=
  ⟨iff_of_true sound.neverHeld free, fun _ => sound⟩

theorem Sound.waitReturns {run : ShellRun} (sound : run.Sound) : run.Decides .waitReturns := by
  cases collected : run.status with
  | none =>
      have same : run.step .waitReturns = run := by rw [step, collected]
      refine .of_sound ?_ (same.symm ▸ sound)
      intro _ some
      rw [collected] at some
      cases some
  | some code =>
      have same : run.step .waitReturns = run.collect code := by rw [step, collected]
      by_cases waiting : run.phase = .waiting
      · have next : run.collect code =
            { run with reaped := true, phase := .draining .stdout (.exited code) } := by
          rw [collect, waiting]
          rfl
        have decides := @neverHeld_draining (run.step .waitReturns) .stdout (.exited code)
          (by rw [same, next])
        have quiet : (run.step .waitReturns).groupSignals = [] := by
          rw [same, next]
          exact sound.ordered.quiet waiting
        have iff : (run.step .waitReturns).NeverHeld ↔ run.LeavesNone .waitReturns := by
          rw [decides, or_iff_left (not_not_intro quiet), same, next, LeavesNone, collected]
          exact ⟨fun free _ _ => free, fun free => free waiting rfl⟩
        refine ⟨iff, fun free => ⟨?_, iff.mpr free⟩⟩
        exact @ordered_draining _ .stdout (.exited code) (by rw [same, next])
      · have free : run.LeavesNone .waitReturns := fun now => absurd now waiting
        refine .of_sound free ?_
        rw [same, collect]
        split
        · exact absurd ‹_› waiting
        · split
          · rename_i since inside
            exact @sound_terminated { run with reaped := true } _ inside
              (sound.ordered.signalled _ inside nofun)
          · rename_i inside
            exact @sound_terminated { run with reaped := true } _ inside
              (sound.ordered.signalled _ inside nofun)
          · exact sound

theorem Sound.joins_other {run : ShellRun} (sound : run.Sound)
    (other : ∀ stream outcome, run.phase ≠ .draining stream outcome) : run.Decides .joins := by
  have next : run.step .joins = run := by
    rw [step, join.eq_def]
    split
    · exact absurd ‹_› (other _ _)
    · exact absurd ‹_› (other _ _)
    · rfl
  exact .of_sound (fun outcome now => absurd now (other _ _)) (next.symm ▸ sound)

theorem Sound.joins {run : ShellRun} (sound : run.Sound) : run.Decides .joins := by
  have same : run.step .joins = run.join := rfl
  cases draining : run.phase with
  | draining stream outcome =>
      cases stream with
      | stdout =>
          cases ended : run.stdoutEnded with
          | false =>
              have next : run.join = run := by rw [join, draining, ended]; rfl
              refine .of_sound ?_ (by rw [same, next]; exact sound)
              intro _ _ drained
              rw [ended] at drained
              cases drained
          | true =>
              have next : run.join = run.enter (.draining .stderr outcome) := by
                rw [join, draining, ended]
                rfl
              have decides := @neverHeld_draining (run.step .joins) .stderr outcome
                (by rw [same, next]; rfl)
              have iff : (run.step .joins).NeverHeld ↔ run.LeavesNone .joins := by
                rw [decides, same, next]
                constructor
                · intro free _ _ _ running quiet
                  exact (free running).resolve_right (not_not_intro quiet)
                · intro free running
                  by_cases quiet : run.groupSignals = []
                  · exact .inl (free outcome draining ended running quiet)
                  · exact .inr quiet
              refine ⟨iff, fun free => ⟨?_, iff.mpr free⟩⟩
              exact @ordered_draining _ .stderr outcome (by rw [same, next]; rfl)
      | stderr =>
          have free : run.LeavesNone .joins := by
            intro other now
            rw [draining] at now
            cases now
          refine .of_sound free ?_
          rw [same, join, draining]
          dsimp only
          split
          · exact @sound_finished _ outcome rfl
          · exact sound
  | waiting => exact sound.joins_other (by rw [draining]; exact nofun)
  | cancelling stage => exact sound.joins_other (by rw [draining]; exact nofun)
  | terminating stage outcome => exact sound.joins_other (by rw [draining]; exact nofun)
  | finished outcome => exact sound.joins_other (by rw [draining]; exact nofun)

theorem Sound.decides {run : ShellRun} (sound : run.Sound) (event : Event) : run.Decides event := by
  cases event with
  | passes ms => exact .of_sound trivial ((calm_passes run ms).sound sound)
  | fork parent => exact .of_sound trivial ((calm_fork run parent).sound sound)
  | close pid stream => exact .of_sound trivial ((calm_close run pid stream).sound sound)
  | exit pid code => exact .of_sound trivial ((calm_exit run pid code).sound sound)
  | pumpEnds stream =>
      refine .of_sound trivial ?_
      rw [step]
      split
      · exact sound
      · exact (calm_endPump run stream).sound sound
  | pumpStops stream => exact .of_sound trivial ((calm_endPump run stream).sound sound)
  | waitReturns => exact sound.waitReturns
  | waitFails error => exact .of_sound trivial (sound.waitFails error)
  | cancelled => exact .of_sound trivial sound.cancelled
  | timesOut => exact .of_sound trivial sound.timesOut
  | proceeds => exact .of_sound trivial sound.proceed
  | joins => exact sound.joins

/-- A command that starts a job in the background and exits. -/
def backgroundJob : List Event :=
  [.fork 0, .exit 0 (some 0), .waitReturns, .passes 30000, .timesOut]

/-- The job holds the pipe of the result, and the timeout does not end the wait. -/
theorem backgroundJob_holds_result :
    ¬ Throughout (fun before event =>
      (Transition.run step (spawned none) (before ++ [event])).NeverHeld) backgroundJob := by
  intro all
  have blocked : (Transition.run step (spawned none) backgroundJob).Blocked .stdout :=
    ⟨by decide, .exited (some 0), by decide⟩
  have last : (Transition.run step (spawned none) backgroundJob).NeverHeld :=
    all backgroundJob.dropLast .timesOut [] rfl
  rcases last _ blocked with free | signals
  · exact absurd free (by decide)
  · exact absurd signals (by decide)

/-- In a run of a command the future never waits for a pipe that a process of the group holds
before the group is signalled, if and only if no process holds a pipe that is drained after the
leader has exited by itself. -/
theorem never_waits_for_holder_iff (timeoutMs : Option Nat) (events : List Event) :
    Throughout (fun before event =>
        (Transition.run step (spawned timeoutMs) (before ++ [event])).NeverHeld) events ↔
      Throughout (fun before event =>
        (Transition.run step (spawned timeoutMs) before).LeavesNone event) events := by
  simp only [run_concat]
  exact Throughout.iff_of_step Sound (fun run event => (run.step event).NeverHeld) LeavesNone
    (sound_spawned timeoutMs) (fun run event sound => (sound.decides event).iff)
    (fun run event sound => (sound.decides event).keeps) events

end ShellRun

end Shell

end Daemon
