import SynthHiresBridge.Transition.Run
import SynthHiresBridge.Daemon.WsLoop

namespace Daemon

open Posix Transition

namespace Connection

/-- The watchdog of a connection is its awaited beat and its misses. -/
def watchdog (connection : Connection) : Option Nat × Nat :=
  (connection.expectedHeartbeat, connection.consecutiveMisses)

/-- An acknowledgement resets the watchdog, and no other frame changes it. -/
theorem receive_watchdog (connection : Connection) (host : Host) (moment : Moment)
    (frame : ServerFrame) :
    (connection.receive host moment frame).watchdog = match frame with
      | .heartbeatAck _ => (none, 0)
      | _ => connection.watchdog := by
  cases frame <;> rfl

theorem receive_interval (connection : Connection) (host : Host) (moment : Moment)
    (frame : ServerFrame) : (connection.receive host moment frame).heartbeatIntervalMs =
      connection.heartbeatIntervalMs := by
  cases frame <;> rfl

theorem tick_interval (connection : Connection) (moment : Moment) :
    (connection.tick moment).heartbeatIntervalMs = connection.heartbeatIntervalMs := by
  unfold tick
  simp only
  split
  · rfl
  · split
    · rfl
    · split <;> rfl

/-- A tick sends a beat, or it waits for a young one, or it counts a miss. -/
theorem tick_none (connection : Connection) (moment : Moment)
    (none : connection.expectedHeartbeat = none) :
    (connection.tick moment).watchdog = (some moment.now, connection.consecutiveMisses) := by
  simp [tick, none, watchdog, sendHeartbeat]

/-- A tick without an earlier miss goes on. -/
theorem tick_live (connection : Connection) (moment : Moment)
    (zero : connection.consecutiveMisses = 0) :
    (connection.tick moment).live = connection.live := by
  unfold tick
  simp only
  split
  · rfl
  · split
    · rfl
    · simp [zombieKill, zero, sendHeartbeat]

section

variable (connection : Connection) (moment : Moment) {sentAt : Nat}
  (awaited : connection.expectedHeartbeat = some sentAt)

include awaited

theorem tick_young (young : moment.now - sentAt < connection.heartbeatIntervalMs) :
    (connection.tick moment).watchdog = connection.watchdog ∧
      (connection.tick moment).live = connection.live := by
  simp [tick, awaited, young, watchdog]

theorem tick_miss (aged : connection.heartbeatIntervalMs ≤ moment.now - sentAt)
    (first : connection.consecutiveMisses = 0) :
    (connection.tick moment).watchdog = (some moment.now, 1) := by
  simp [tick, awaited, not_lt.mpr aged, watchdog, first, zombieKill, sendHeartbeat]

theorem tick_kill_missed (aged : connection.heartbeatIntervalMs ≤ moment.now - sentAt)
    (missed : connection.consecutiveMisses ≠ 0) : (connection.tick moment).live = false := by
  have twice : 2 ≤ connection.consecutiveMisses + 1 := by omega
  simp [tick, awaited, not_lt.mpr aged, zombieKill, twice]

theorem tick_kill (aged : connection.heartbeatIntervalMs ≤ moment.now - sentAt)
    (second : connection.consecutiveMisses = 1) : (connection.tick moment).live = false := by
  apply connection.tick_kill_missed moment awaited aged
  omega

end

end Connection

/-- The clock when a turn of the loop starts. -/
def Turn.now : Turn → Option Nat
  | .read moment | .deliver moment | .tick moment => some moment.now
  | .arrive _ | .localAnswer _ _ | .machine _ => none

/-- The clock of a run never goes back. -/
def Turn.Clocked (turns : List Turn) : Prop := (turns.filterMap Turn.now).Pairwise (· ≤ ·)

/-- A watch remembers the ticks handled since the last acknowledgement was read, the beats whose
acknowledgement arrived after them, and the beats that count as misses, the last one first. -/
structure Watch where
  ticks : List Nat
  answered : List Nat
  missed : List Nat

namespace SelectLoop

def awaited (loop : SelectLoop) : Option Nat := loop.connection.expectedHeartbeat

def interval (loop : SelectLoop) : Nat := loop.connection.heartbeatIntervalMs

/-- The loop handles a tick from its time on. -/
def handles (loop : SelectLoop) (moment : Moment) : Bool :=
  loop.connection.live && decide (loop.nextTick ≤ moment.now)

/-- A beat is young until an interval has gone by, and a tick does not judge it. -/
def young (loop : SelectLoop) (moment : Moment) : Bool :=
  loop.awaited.any fun sentAt => decide (moment.now - sentAt < loop.interval)

def acknowledges : Message → Bool
  | .text (.heartbeatAck _) => true
  | _ => false

def watch (loop : SelectLoop) (note : Watch) : Turn → Watch
  | .arrive (.text (.heartbeatAck t)) => { note with answered := t :: note.answered }
  | .read _ =>
      if loop.connection.live && loop.inbox.head?.any acknowledges then { note with ticks := [] }
      else note
  | .tick moment =>
      if !loop.handles moment then note
      else if loop.young moment then { note with ticks := moment.now :: note.ticks }
      else ⟨moment.now :: note.ticks, note.answered.filter (· ≠ moment.now),
        loop.awaited.toList ++ note.missed⟩
  | _ => note

theorem step_tick {loop : SelectLoop} {moment : Moment} (host : Host)
    (handled : loop.handles moment = true) :
    loop.step host (.tick moment) =
      ⟨loop.connection.tick moment, loop.inbox, loop.nextTick + loop.interval⟩ := by
  simp only [handles, Bool.and_eq_true, decide_eq_true_eq] at handled
  simp [step, handle, Connection.step, handled.1, not_lt.mpr handled.2, interval]

/-- The acknowledgement of a beat waits unread. -/
def Waits (loop : SelectLoop) (beat : Nat) : Prop := .text (.heartbeatAck beat) ∈ loop.inbox

/-- The watchdog has no beat to judge, or its first one, or the one after a miss. -/
inductive Tracks (loop : SelectLoop) (note : Watch) : Prop
  | idle (awaited : loop.awaited = none) (misses : loop.connection.consecutiveMisses = 0)
      (ticks : note.ticks = [])
  | first (beat : Nat) (awaited : loop.awaited = some beat)
      (misses : loop.connection.consecutiveMisses = 0) (sent : beat ∈ note.ticks)
      (near : ∀ tick ∈ note.ticks, beat ≤ tick ∧ tick < beat + loop.interval)
      (unread : beat ∈ note.answered → loop.Waits beat)
  | second (lost beat : Nat) (awaited : loop.awaited = some beat)
      (misses : loop.connection.consecutiveMisses = 1) (missed : note.missed.head? = some lost)
      (former : lost ∈ note.ticks) (sent : beat ∈ note.ticks) (apart : lost + loop.interval ≤ beat)
      (near : ∀ tick ∈ note.ticks, lost ≤ tick ∧ tick < beat + loop.interval ∧
        (tick < lost + loop.interval ∨ beat ≤ tick))
      (unread : ∀ either ∈ [lost, beat], either ∈ note.answered → loop.Waits either)

/-- The watchdog is tracked as long as the connection lives, and its interval is positive. -/
structure Watched (loop : SelectLoop) (note : Watch) : Prop where
  tracks : loop.connection.live = true → loop.Tracks note
  positive : 0 < loop.interval

namespace Watched

theorem opened (connection : Connection) (scopes : Scopes) (heartbeatIntervalMs openedAt : Nat) :
    Watched (.opened connection scopes heartbeatIntervalMs openedAt) ⟨[], [], []⟩ := by
  refine ⟨fun _ => .idle rfl rfl rfl, ?_⟩
  simp only [interval, SelectLoop.opened, Connection.handshake]
  split
  · assumption
  · decide

/-- A turn that leaves the watchdog alone may only add to the inbox. -/
theorem quiet {before after : SelectLoop} {note : Watch} (watched : Watched before note)
    (lives : after.connection.live = true → before.connection.live = true)
    (same : after.connection.watchdog = before.connection.watchdog)
    (interval : after.interval = before.interval)
    (inbox : ∀ beat, before.Waits beat → after.Waits beat) : Watched after note := by
  obtain ⟨awaited, misses⟩ := Prod.mk.inj same
  change after.awaited = before.awaited at awaited
  refine ⟨fun live => ?_, interval ▸ watched.positive⟩
  cases watched.tracks (lives live) with
  | idle none zero ticks => exact .idle (awaited.trans none) (misses.trans zero) ticks
  | first beat some zero sent near unread =>
      refine .first beat (awaited.trans some) (misses.trans zero) sent ?_ ?_
      · rwa [interval]
      · exact fun answered => inbox beat (unread answered)
  | second lost beat some one missed former sent apart near unread =>
      refine .second lost beat (awaited.trans some) (misses.trans one) missed former sent ?_ ?_ ?_
      · rwa [interval]
      · rwa [interval]
      · exact fun either member answered => inbox either (unread either member answered)

/-- An acknowledgement waits from its arrival on. -/
theorem arrive {loop : SelectLoop} {note : Watch} (watched : Watched loop note) (t : Nat) :
    Watched { loop with inbox := loop.inbox ++ [.text (.heartbeatAck t)] }
      { note with answered := t :: note.answered } := by
  have waits : ∀ beat, (beat ∈ note.answered → loop.Waits beat) → beat ∈ t :: note.answered →
      .text (.heartbeatAck beat) ∈ loop.inbox ++ [.text (.heartbeatAck t)] := by
    intro beat older answered
    rcases List.mem_cons.mp answered with rfl | before
    · simp
    · exact List.mem_append_left _ (older before)
  refine ⟨fun live => ?_, watched.positive⟩
  cases watched.tracks live with
  | idle none zero ticks => exact .idle none zero ticks
  | first beat some zero sent near unread =>
      exact .first beat some zero sent near (waits beat unread)
  | second lost beat some one missed former sent apart near unread =>
      exact .second lost beat some one missed former sent apart near
        (fun either member => waits either (unread either member))

/-- A handled tick sends a beat that nothing has answered, or it waits for a young one. -/
theorem tick {loop : SelectLoop} {note : Watch} (watched : Watched loop note) (host : Host)
    (moment : Moment) (handled : loop.handles moment = true)
    (clock : ∀ tick ∈ note.ticks, tick ≤ moment.now) :
    Watched (loop.step host (.tick moment)) (loop.watch note (.tick moment)) := by
  have positive := watched.positive
  have live : loop.connection.live = true := (Bool.and_eq_true_iff.mp handled).1
  rw [step_tick host handled]
  simp only [watch, handled, Bool.not_true, Bool.false_eq_true, if_false]
  have cadence : interval ⟨loop.connection.tick moment, loop.inbox,
    loop.nextTick + loop.interval⟩ = loop.interval := loop.connection.tick_interval moment
  refine ⟨fun alive => ?_, cadence ▸ positive⟩
  cases watched.tracks live with
  | idle none zero ticks =>
      have dog := loop.connection.tick_none moment none
      obtain ⟨awaits, misses⟩ := Prod.mk.inj dog
      have grown : loop.young moment = false := by simp [young, none]
      simp only [grown, Bool.false_eq_true, if_false, ticks]
      refine .first moment.now awaits (misses.trans zero) (by simp) ?_ (by simp)
      simp [cadence, positive]
  | first beat some zero sent near unread =>
      have before := clock beat sent
      by_cases age : moment.now - beat < loop.interval
      · obtain ⟨dog, -⟩ := loop.connection.tick_young moment some age
        obtain ⟨awaits, misses⟩ := Prod.mk.inj dog
        have fresh : loop.young moment = true := by simp [young, some, age]
        simp only [fresh, if_true]
        refine .first beat (awaits.trans some) (misses.trans zero)
          (List.mem_cons_of_mem _ sent) ?_ unread
        rw [cadence]
        exact List.forall_mem_cons.mpr ⟨by omega, near⟩
      · have dog := loop.connection.tick_miss moment some (not_lt.mp age) zero
        obtain ⟨awaits, misses⟩ := Prod.mk.inj dog
        have grown : loop.young moment = false := by simp [young, some, age]
        simp only [grown, Bool.false_eq_true, if_false, some]
        refine .second beat moment.now awaits misses rfl (List.mem_cons_of_mem _ sent)
          List.mem_cons_self (by rw [cadence]; omega) ?_ ?_
        · rw [cadence]
          refine List.forall_mem_cons.mpr ⟨by omega, fun tick older => ?_⟩
          have close := near tick older
          have past := clock tick older
          omega
        · intro either member answered
          obtain ⟨older, other⟩ := List.mem_filter.mp answered
          rcases List.mem_pair.mp member with rfl | rfl
          · exact unread older
          · simp at other
  | second lost beat some one missed former sent apart near unread =>
      by_cases age : moment.now - beat < loop.interval
      · obtain ⟨dog, -⟩ := loop.connection.tick_young moment some age
        obtain ⟨awaits, misses⟩ := Prod.mk.inj dog
        have fresh : loop.young moment = true := by simp [young, some, age]
        simp only [fresh, if_true]
        refine .second lost beat (awaits.trans some) (misses.trans one) missed
          (List.mem_cons_of_mem _ former) (List.mem_cons_of_mem _ sent) (by rwa [cadence]) ?_
          unread
        have before := clock beat sent
        rw [cadence]
        exact List.forall_mem_cons.mpr ⟨by omega, near⟩
      · have killed := loop.connection.tick_kill moment some (not_lt.mp age) one
        rw [killed] at alive
        cases alive

/-- A read message leaves the inbox, and an acknowledgement resets the watchdog and its watch. -/
theorem read {loop : SelectLoop} {note : Watch} (watched : Watched loop note) (host : Host)
    (moment : Moment) (live : loop.connection.live = true) :
    Watched (loop.step host (.read moment)) (loop.watch note (.read moment)) := by
  cases queue : loop.inbox with
  | nil =>
      simpa [SelectLoop.step, watch, live, queue] using watched
  | cons message rest =>
      have keeps : acknowledges message = false → ∀ beat, loop.Waits beat →
          .text (.heartbeatAck beat) ∈ rest := by
        intro plain beat waits
        rw [Waits, queue] at waits
        rcases List.mem_cons.mp waits with rfl | later
        · cases plain
        · exact later
      cases message with
      | close =>
          simp only [SelectLoop.step, watch, live, queue, Message.event]
          exact watched.quiet (fun _ => live) rfl rfl (keeps rfl)
      | binary =>
          simp only [SelectLoop.step, watch, live, queue, Message.event]
          exact watched.quiet (fun _ => live) rfl rfl (keeps rfl)
      | text frame =>
          have dog := loop.connection.receive_watchdog host moment frame
          have cadence := loop.connection.receive_interval host moment frame
          cases frame with
          | heartbeatAck t =>
              obtain ⟨awaits, misses⟩ := Prod.mk.inj dog
              simp only [SelectLoop.step, watch, live, queue, Message.event,
                handle, Connection.step]
              exact ⟨fun _ => .idle awaits misses rfl, by
                simpa [interval, cadence] using watched.positive⟩
          | _ =>
              simp only [SelectLoop.step, watch, live, queue, Message.event,
                handle, Connection.step]
              exact watched.quiet (fun _ => live) dog cadence (keeps rfl)

/-- Every turn keeps the watchdog tracked while the clock does not go back. -/
theorem step {loop : SelectLoop} {note : Watch} (watched : Watched loop note) (host : Host)
    (turn : Turn) (clock : ∀ now, turn.now = some now → ∀ tick ∈ note.ticks, tick ≤ now) :
    Watched (loop.step host turn) (loop.watch note turn) := by
  cases live : loop.connection.live with
  | false =>
      have same : loop.step host turn = loop := by simp [SelectLoop.step, live]
      rw [same]
      refine ⟨fun alive => ?_, watched.positive⟩
      rw [live] at alive
      cases alive
  | true =>
      cases turn with
      | arrive message =>
          have waits : ∀ beat, loop.Waits beat →
              .text (.heartbeatAck beat) ∈ loop.inbox ++ [message] :=
            fun beat before => List.mem_append_left _ before
          simp only [SelectLoop.step, live, Bool.not_true, Bool.false_eq_true, if_false]
          cases message with
          | close => exact watched.quiet (fun _ => live) rfl rfl waits
          | binary => exact watched.quiet (fun _ => live) rfl rfl waits
          | text frame =>
              cases frame with
              | heartbeatAck t => exact watched.arrive t
              | _ => exact watched.quiet (fun _ => live) rfl rfl waits
      | read moment => exact watched.read host moment live
      | tick moment =>
          cases handled : loop.handles moment with
          | true => exact watched.tick host moment handled (clock moment.now rfl)
          | false =>
              have early : moment.now < loop.nextTick := by simpa [handles, live] using handled
              simpa [SelectLoop.step, watch, live, handled, early] using watched
      | deliver moment =>
          simp only [SelectLoop.step, live, watch, handle, Connection.step]
          exact watched.quiet (fun _ => live) rfl rfl (fun _ => id)
      | localAnswer actionId answer =>
          simp only [SelectLoop.step, live, watch, handle, Connection.step]
          exact watched.quiet (fun _ => live) rfl rfl (fun _ => id)
      | machine fs =>
          simp only [SelectLoop.step, live, watch, handle, Connection.step]
          exact watched.quiet (fun _ => live) rfl rfl (fun _ => id)

end Watched

section Run

variable (host : Host) (opened : SelectLoop)

/-- The loop of a connection after some turns. -/
def after (turns : List Turn) : SelectLoop := run (step host) opened turns

/-- The watch of a connection after some turns. -/
def watchAfter (turns : List Turn) : Watch :=
  annotate (step host) watch opened ⟨[], [], []⟩ turns

theorem watchAfter_concat (turns : List Turn) (turn : Turn) :
    watchAfter host opened (turns ++ [turn]) =
      (after host opened turns).watch (watchAfter host opened turns) turn :=
  annotate_concat ..

end Run

/-- A watched tick was one before, or it is the tick of this turn. -/
theorem watch_ticks (loop : SelectLoop) (note : Watch) (turn : Turn) :
    ∀ tick ∈ (loop.watch note turn).ticks, tick ∈ note.ticks ∨ turn.now = some tick := by
  intro tick member
  unfold watch at member
  split at member
  · exact .inl member
  · split at member
    · cases member
    · exact .inl member
  · split at member
    · exact .inl member
    · split at member <;> rcases List.mem_cons.mp member with rfl | older
      · exact .inr rfl
      · exact .inl older
      · exact .inr rfl
      · exact .inl older
  · exact .inl member

theorem watchAfter_ticks (host : Host) (opened : SelectLoop) (turns : List Turn) :
    ∀ tick ∈ (watchAfter host opened turns).ticks, tick ∈ turns.filterMap Turn.now := by
  induction turns using List.reverseRecOn with
  | nil => simp [watchAfter, annotate]
  | append_singleton turns turn ih =>
      intro tick member
      rw [watchAfter_concat] at member
      rw [List.filterMap_append, List.mem_append]
      rcases watch_ticks _ _ turn tick member with older | own
      · exact .inl (ih tick older)
      · exact .inr (by simp [own])

/-- The watched ticks are not later than the next turn. -/
theorem clock_ticks (host : Host) (opened : SelectLoop) {turns rest : List Turn} {turn : Turn}
    (clocked : Turn.Clocked (turns ++ turn :: rest)) (now : Nat) (reads : turn.now = some now) :
    ∀ tick ∈ (watchAfter host opened turns).ticks, tick ≤ now := by
  intro tick member
  rw [Turn.Clocked, List.filterMap_append, List.pairwise_append] at clocked
  exact clocked.2.2 tick (watchAfter_ticks host opened turns tick member) now (by simp [reads])

/-- The watchdog of a connection is tracked throughout its run. -/
theorem run_watched (host : Host) {opened : SelectLoop} (start : Watched opened ⟨[], [], []⟩)
    {turns rest : List Turn} (clocked : Turn.Clocked (turns ++ rest)) :
    Watched (after host opened turns) (watchAfter host opened turns) := by
  induction turns using List.reverseRecOn generalizing rest with
  | nil => exact start
  | append_singleton turns turn ih =>
      rw [List.append_assoc] at clocked
      rw [watchAfter_concat, after, run_concat]
      exact (ih clocked).step host turn (clock_ticks host opened clocked)

/-- The watchdog ends the connection at a tick. -/
def Kills (host : Host) (loop : SelectLoop) (moment : Moment) : Prop :=
  loop.connection.live = true ∧ (loop.step host (.tick moment)).connection.live = false

/-- Since an acknowledgement was last read, two ticks and this one lie whole intervals apart. -/
def Overdue (loop : SelectLoop) (note : Watch) (moment : Moment) : Prop :=
  ∃ first ∈ note.ticks, ∃ second ∈ note.ticks,
    first + loop.interval ≤ second ∧ second + loop.interval ≤ moment.now

/-- An acknowledgement has arrived for one of the two beats that count as misses at a tick, or
some acknowledgement waits unread. -/
def Heard (loop : SelectLoop) (note : Watch) : Prop :=
  (∃ beat ∈ (loop.awaited.toList ++ note.missed).take 2, beat ∈ note.answered) ∨
    ∃ t, loop.Waits t

/-- The watchdog ends the connection at the third of three ticks that lie whole intervals apart. -/
theorem Watched.kills_iff {loop : SelectLoop} {note : Watch} (watched : Watched loop note)
    (host : Host) (moment : Moment) (clock : ∀ tick ∈ note.ticks, tick ≤ moment.now) :
    loop.Kills host moment ↔ loop.handles moment = true ∧ loop.Overdue note moment := by
  cases handled : loop.handles moment with
  | false =>
      have stays : loop.connection.live = true → loop.step host (.tick moment) = loop := by
        intro live
        have early : moment.now < loop.nextTick := by simpa [handles, live] using handled
        simp [SelectLoop.step, live, early]
      constructor
      · rintro ⟨live, dead⟩
        rw [stays live, live] at dead
        cases dead
      · rintro ⟨never, -⟩
        cases never
  | true =>
      have live : loop.connection.live = true := (Bool.and_eq_true_iff.mp handled).1
      have verdict : loop.Kills host moment ↔ (loop.connection.tick moment).live = false := by
        rw [Kills, step_tick host handled]
        exact and_iff_right live
      rw [verdict, and_iff_right rfl]
      cases watched.tracks live with
      | idle none zero ticks =>
          rw [loop.connection.tick_live moment zero, live]
          simp [Overdue, ticks]
      | first beat some zero sent near unread =>
          rw [loop.connection.tick_live moment zero, live]
          refine iff_of_false Bool.noConfusion ?_
          rintro ⟨early, listed, late, member, apart, -⟩
          have := near early listed
          have := near late member
          omega
      | second lost beat some one missed former sent apart near unread =>
          by_cases age : moment.now - beat < loop.interval
          · rw [(loop.connection.tick_young moment some age).2, live]
            refine iff_of_false Bool.noConfusion ?_
            rintro ⟨early, listed, late, member, gap, due⟩
            have := near early listed
            have := near late member
            omega
          · rw [loop.connection.tick_kill moment some (not_lt.mp age) one]
            refine iff_of_true rfl ⟨lost, former, beat, sent, apart, ?_⟩
            have := clock beat sent
            omega

/-- The watchdog counts one miss before it ends the connection. -/
theorem misses_of_kills {loop : SelectLoop} {host : Host} {moment : Moment}
    (kills : loop.Kills host moment) : loop.connection.consecutiveMisses ≠ 0 := by
  intro zero
  obtain ⟨live, dead⟩ := kills
  by_cases early : moment.now < loop.nextTick
  · simp [SelectLoop.step, live, early] at dead
  · rw [step_tick host (by simp [handles, live, not_lt.mp early]),
      loop.connection.tick_live moment zero, live] at dead
    cases dead

/-- An acknowledgement that was heard when the watchdog ends the connection waits unread. -/
theorem Watched.heard_iff {loop : SelectLoop} {note : Watch} (watched : Watched loop note)
    {host : Host} {moment : Moment} (kills : loop.Kills host moment) :
    loop.Heard note ↔ ∃ t, loop.Waits t := by
  have missed := misses_of_kills kills
  refine ⟨?_, .inr⟩
  rintro (⟨beat, counted, answered⟩ | waits)
  · cases watched.tracks kills.1 with
    | idle none zero ticks => exact absurd zero missed
    | first only some zero sent near unread => exact absurd zero missed
    | second lost only some one held former sent apart near unread =>
        refine ⟨beat, unread beat ?_ answered⟩
        cases older : note.missed with
        | nil => simp [older] at held
        | cons head tail =>
            obtain rfl : head = lost := by simpa [older] using held
            simpa [some, older, or_comm] using counted
  · exact waits

/-- A tick is untimely when it is overdue while an acknowledgement waits unread. -/
def Untimely (loop : SelectLoop) (note : Watch) (moment : Moment) : Prop :=
  loop.handles moment = true ∧ loop.Overdue note moment ∧ ∃ t, loop.Waits t

/-- The watchdog spares every live path of a run exactly when no tick of the run is untimely. -/
theorem zombie_iff (host : Host) (connection : Connection) (scopes : Scopes)
    (heartbeatIntervalMs openedAt : Nat) (turns : List Turn) (clocked : Turn.Clocked turns) :
    let opened := SelectLoop.opened connection scopes heartbeatIntervalMs openedAt
    (∀ before moment rest, turns = before ++ .tick moment :: rest →
        (after host opened before).Kills host moment →
        ¬ (after host opened before).Heard (watchAfter host opened before)) ↔
      ∀ before moment rest, turns = before ++ .tick moment :: rest →
        ¬ (after host opened before).Untimely (watchAfter host opened before) moment := by
  intro opened
  refine forall₃_congr fun before moment rest => ?_
  refine imp_congr_right fun same => ?_
  subst same
  have watched := run_watched host (.opened connection scopes heartbeatIntervalMs openedAt) clocked
  have kills := watched.kills_iff host moment (clock_ticks host opened clocked moment.now rfl)
  constructor
  · rintro spares ⟨handled, overdue, waits⟩
    exact spares (kills.mpr ⟨handled, overdue⟩) (.inr waits)
  · intro timely killed heard
    obtain ⟨handled, overdue⟩ := kills.mp killed
    exact timely ⟨handled, overdue, (watched.heard_iff killed).mp heard⟩

/-- Two ticks leave the connection open. -/
theorem zombie_two_ticks :
    let turns : List Turn := [.tick (.quiet 0), .tick (.quiet 30000)]
    let opened := SelectLoop.opened ⟨.start (.ofScopes ⟨[], []⟩) none .empty, none, 0, 0, false⟩
      ⟨[], []⟩ 30000 0
    ∀ before moment rest, turns = before ++ .tick moment :: rest →
      (after .quiet opened before).Kills .quiet moment →
      ¬ (after .quiet opened before).Heard (watchAfter .quiet opened before) := by
  refine (zombie_iff .quiet ⟨.start (.ofScopes ⟨[], []⟩) none .empty, none, 0, 0, false⟩
    ⟨[], []⟩ 30000 0 [.tick (.quiet 0), .tick (.quiet 30000)]
    (by simp [Turn.Clocked, Turn.now, Moment.quiet])).mpr ?_
  rintro before moment rest same ⟨-, -, t, waits⟩
  rcases before with - | ⟨first, - | ⟨second, more⟩⟩
  · exact absurd waits List.not_mem_nil
  · simp only [List.cons_append, List.nil_append, List.cons.injEq] at same
    obtain ⟨rfl, -⟩ := same
    exact absurd waits List.not_mem_nil
  · simp at same

/-- A connection that may run shell commands. -/
def shellLoop : SelectLoop :=
  .opened ⟨.start (.ofScopes ⟨[], []⟩) none .empty, none, 0, 0, false⟩
    ⟨["desktop.shell.execute"], []⟩ 30000 0

def sleepRequest (id : String) : Message :=
  .text (.actionRequest ⟨1, id, "desktop.shell.execute",
    .object [("command", .string "sleep 35")], none, true⟩)

/-- Two long actions are read before the acknowledgement of the first beat. -/
def queuedTurns : List Turn :=
  [.tick (.quiet 0), .arrive (sleepRequest "1"), .arrive (sleepRequest "2"),
    .arrive (.text (.heartbeatAck 0)), .read (.quiet 0), .tick (.quiet 35000),
    .read (.quiet 35000)]

/-- The acknowledgement of the first beat waits behind two long actions. -/
theorem live_path_killed :
    ¬ ∀ (host : Host) (connection : Connection) (scopes : Scopes)
      (heartbeatIntervalMs openedAt : Nat) (turns : List Turn), Turn.Clocked turns →
      let opened := SelectLoop.opened connection scopes heartbeatIntervalMs openedAt
      ∀ before moment rest, turns = before ++ .tick moment :: rest →
        (after host opened before).Kills host moment →
        ¬ (after host opened before).Heard (watchAfter host opened before) := by
  intro claim
  refine claim .quiet _ _ _ _ (queuedTurns ++ [.tick (.quiet 70000)]) ?_ queuedTurns (.quiet 70000)
    [] rfl (?_ : (after .quiet shellLoop queuedTurns).Kills _ _) ?_
  · unfold Turn.Clocked
    decide
  · exact ⟨by decide, by decide⟩
  · have queued : (after .quiet shellLoop queuedTurns).inbox = [.text (.heartbeatAck 0)] := rfl
    have waits : (after .quiet shellLoop queuedTurns).Waits 0 := by
      rw [Waits, queued]
      exact List.mem_cons_self
    exact .inr ⟨0, waits⟩

end SelectLoop

end Daemon
