import SynthHiresBridge.Proof.Results
import SynthHiresBridge.Proof.Watchdog

namespace Daemon

open Posix Transition

namespace SelectLoop

/-- The clock at a tick that the loop handles. -/
def ticked (loop : SelectLoop) : Turn → List Nat
  | .tick moment => if loop.handles moment then [moment.now] else []
  | _ => []

/-- The loop reads an acknowledgement. -/
def hears (loop : SelectLoop) : Turn → Bool
  | .read _ => loop.connection.live && loop.inbox.head?.any acknowledges
  | _ => false

/-- The times of the ticks that a run handles. -/
def ticks (host : Host) (loop : SelectLoop) (turns : List Turn) : List Nat :=
  collect (step host) ticked loop turns

/-- No acknowledgement is read in a run. -/
def Silent (host : Host) (loop : SelectLoop) (turns : List Turn) : Prop :=
  Throughout (fun before turn => (after host loop before).hears turn = false) turns

/-- The tick with number `k` comes `delay k` after its time. -/
def Scheduled (host : Host) (opened : SelectLoop) (delay : Nat → Nat) (turns : List Turn) : Prop :=
  ∀ k now, (ticks host opened turns)[k]? = some now →
    now = opened.nextTick + k * opened.interval + delay k

/-- A tick sends a beat. -/
def Beats (host : Host) (loop : SelectLoop) (moment : Moment) : Prop :=
  (loop.step host (.tick moment)).connection.client.sent =
    loop.connection.client.sent ++ [.heartbeat ⟨protocolVersion, moment.now⟩]

/-- The third tick after a beat that nothing answers ends the connection, when no earlier one did. -/
def Detected (host : Host) (opened : SelectLoop) (turns : List Turn) : Prop :=
  ∀ before beat later third, turns = before ++ .tick beat :: (later ++ [.tick third]) →
    let sent := after host opened (before ++ [.tick beat])
    (after host opened before).Beats host beat → sent.Silent host later →
    (sent.ticks host later).length = 2 → (after host sent later).handles third = true →
    (after host sent later).Kills host third

/-! A turn of the loop -/

theorem step_dead (host : Host) {loop : SelectLoop} (dead : loop.connection.live = false)
    (turn : Turn) : loop.step host turn = loop := by
  simp [step, dead]

theorem step_unhandled (host : Host) {loop : SelectLoop} {moment : Moment}
    (unhandled : loop.handles moment = false) : loop.step host (.tick moment) = loop := by
  cases live : loop.connection.live with
  | false => exact step_dead host live _
  | true =>
      have early : moment.now < loop.nextTick := by simpa [handles, live] using unhandled
      simp [step, live, early]

theorem interval_step (host : Host) (loop : SelectLoop) (turn : Turn) :
    (loop.step host turn).interval = loop.interval := by
  cases live : loop.connection.live with
  | false => rw [step_dead host live]
  | true =>
      cases turn with
      | tick moment =>
          cases handled : loop.handles moment with
          | false => rw [step_unhandled host handled]
          | true =>
              rw [step_tick host handled]
              exact loop.connection.tick_interval moment
      | read moment =>
          cases queue : loop.inbox with
          | nil => simp [step, live, queue]
          | cons message rest =>
              cases message with
              | text frame =>
                  simp only [step, live, queue, Message.event, handle, Connection.step]
                  exact loop.connection.receive_interval host moment frame
              | close => simp [step, live, queue, Message.event, handle, Connection.step, interval]
              | binary => simp [step, live, queue, Message.event, interval]
      | _ => simp [step, live, handle, Connection.step, interval]

/-- A turn that handles no tick and reads no acknowledgement leaves the watchdog alone. -/
theorem step_still (host : Host) {loop : SelectLoop} {turn : Turn} (still : loop.ticked turn = [])
    (silent : loop.hears turn = false) :
    (loop.step host turn).connection.watchdog = loop.connection.watchdog ∧
      (loop.step host turn).nextTick = loop.nextTick := by
  cases live : loop.connection.live with
  | false =>
      rw [step_dead host live]
      exact ⟨rfl, rfl⟩
  | true =>
      cases turn with
      | tick moment =>
          have unhandled : loop.handles moment = false := by simpa [ticked] using still
          rw [step_unhandled host unhandled]
          exact ⟨rfl, rfl⟩
      | read moment =>
          cases queue : loop.inbox with
          | nil => simp [step, live, queue]
          | cons message rest =>
              cases message with
              | text frame =>
                  simp only [step, live, queue, Message.event, handle, Connection.step]
                  refine ⟨?_, rfl⟩
                  have dog := loop.connection.receive_watchdog host moment frame
                  cases frame with
                  | heartbeatAck t => simp [hears, live, queue, acknowledges] at silent
                  | _ => exact dog
              | close =>
                  simp [step, live, queue, Message.event, handle, Connection.step,
                    Connection.watchdog]
              | binary => simp [step, live, queue, Message.event, Connection.watchdog]
      | _ => simp [step, live, handle, Connection.step, Connection.watchdog]

section Run

variable (host : Host) (loop : SelectLoop)

theorem after_concat (turns : List Turn) (turn : Turn) :
    after host loop (turns ++ [turn]) = (after host loop turns).step host turn :=
  run_concat ..

theorem after_append (before later : List Turn) :
    after host loop (before ++ later) = after host (after host loop before) later :=
  run_append ..

theorem ticks_concat (turns : List Turn) (turn : Turn) :
    ticks host loop (turns ++ [turn]) =
      ticks host loop turns ++ (after host loop turns).ticked turn :=
  collect_concat ..

theorem ticks_append (before later : List Turn) :
    ticks host loop (before ++ later) =
      ticks host loop before ++ ticks host (after host loop before) later :=
  collect_append ..

theorem interval_after (turns : List Turn) : (after host loop turns).interval = loop.interval := by
  induction turns using List.reverseRecOn with
  | nil => rfl
  | append_singleton turns turn ih => rw [after_concat, interval_step, ih]

end Run

/-! A beat and the ticks after it -/

theorem tick_sent (connection : Connection) (moment : Moment) :
    (connection.tick moment).client.sent = connection.client.sent ∨
      (connection.tick moment).expectedHeartbeat = some moment.now := by
  have swept := (connection.client.sweepExpiredParked_kept moment).1
  unfold Connection.tick
  simp only
  split
  · exact .inr rfl
  · split
    · exact .inl swept
    · split
      · exact .inl swept
      · exact .inr rfl

/-- A tick that sends a beat awaits its acknowledgement. -/
theorem Beats.awaited {host : Host} {loop : SelectLoop} {moment : Moment}
    (beats : loop.Beats host moment) : loop.handles moment = true ∧
      (loop.step host (.tick moment)).awaited = some moment.now := by
  cases handled : loop.handles moment with
  | false =>
      rw [Beats, step_unhandled host handled] at beats
      simp at beats
  | true =>
      rw [Beats] at beats
      rw [step_tick host handled] at beats ⊢
      rcases tick_sent loop.connection moment with same | awaits
      · rw [same] at beats
        simp at beats
      · exact ⟨rfl, awaits⟩

/-- The time at which the tick with number `k` comes. -/
def due (opened : SelectLoop) (delay : Nat → Nat) (k : Nat) : Nat :=
  opened.nextTick + k * opened.interval + delay k

section Unheard

variable (opened : SelectLoop) (delay : Nat → Nat) (n : Nat)

/-- The watchdog after some ticks that follow the unanswered beat of tick `n`. A tick that is less
late than the beat finds it young. -/
inductive Unheard (loop : SelectLoop) : Nat → Prop
  | sent (awaited : loop.awaited = some (opened.due delay n)) : Unheard loop 0
  | young (awaited : loop.awaited = some (opened.due delay n))
      (sooner : delay (n + 1) < delay n) : Unheard loop 1
  | missed (awaited : loop.awaited = some (opened.due delay (n + 1)))
      (misses : loop.connection.consecutiveMisses ≠ 0) : Unheard loop 1
  | youngAgain (awaited : loop.awaited = some (opened.due delay (n + 1)))
      (misses : loop.connection.consecutiveMisses ≠ 0) : Unheard loop 2
  | missedLate (awaited : loop.awaited = some (opened.due delay (n + 2)))
      (misses : loop.connection.consecutiveMisses ≠ 0)
      (sooner : delay (n + 1) < delay n) : Unheard loop 2

end Unheard

namespace Unheard

variable {opened : SelectLoop} {delay : Nat → Nat} {n : Nat} {loop : SelectLoop} {count : Nat}

theorem still (unheard : Unheard opened delay n loop count) (host : Host) {turn : Turn}
    (still : loop.ticked turn = []) (silent : loop.hears turn = false) :
    Unheard opened delay n (loop.step host turn) count := by
  obtain ⟨dog, -⟩ := step_still host still silent
  obtain ⟨awaits, misses⟩ := Prod.mk.inj dog
  change (loop.step host turn).awaited = loop.awaited at awaits
  cases unheard with
  | sent awaited => exact .sent (awaits.trans awaited)
  | young awaited sooner => exact .young (awaits.trans awaited) sooner
  | missed awaited missed => exact .missed (awaits.trans awaited) (misses ▸ missed)
  | youngAgain awaited missed => exact .youngAgain (awaits.trans awaited) (misses ▸ missed)
  | missedLate awaited missed sooner =>
      exact .missedLate (awaits.trans awaited) (misses ▸ missed) sooner

section

variable (jitter : ∀ k, 10 * delay k < opened.interval) (cadence : loop.interval = opened.interval)
  {moment : Moment}

include jitter cadence

/-- The age of a beat at a later tick is the interval between them, give or take the delays. -/
theorem age {beat tick : Nat} (now : moment.now = opened.due delay tick) (later : beat < tick) :
    loop.connection.heartbeatIntervalMs ≤ moment.now - opened.due delay beat ∨
      tick = beat + 1 ∧ delay tick < delay beat := by
  have early := jitter beat
  have whole : (beat + 1) * opened.interval ≤ tick * opened.interval :=
    Nat.mul_le_mul_right _ later
  change loop.interval ≤ _ ∨ _
  rw [cadence, now, due, due]
  rcases Nat.lt_or_eq_of_le later with far | rfl
  · have whole : (beat + 2) * opened.interval ≤ tick * opened.interval :=
      Nat.mul_le_mul_right _ far
    rw [Nat.add_mul] at whole
    left
    omega
  · rw [Nat.succ_eq_add_one, Nat.add_mul] at *
    omega

/-- One more unanswered tick finds the beat young, or it counts a miss and sends the next one. -/
theorem tick (unheard : Unheard opened delay n loop count) (host : Host)
    (handled : loop.handles moment = true) (now : moment.now = opened.due delay (n + 1 + count))
    (few : count < 2) (alive : (loop.step host (.tick moment)).connection.live = true) :
    Unheard opened delay n (loop.step host (.tick moment)) (count + 1) := by
  rw [step_tick host handled] at alive ⊢
  cases unheard with
  | sent awaited =>
      by_cases aged : loop.connection.heartbeatIntervalMs ≤ moment.now - opened.due delay n
      · by_cases zero : loop.connection.consecutiveMisses = 0
        · obtain ⟨awaits, misses⟩ :=
            Prod.mk.inj (loop.connection.tick_miss moment awaited aged zero)
          apply Unheard.missed
          · exact awaits.trans (congrArg some now)
          · show (loop.connection.tick moment).consecutiveMisses ≠ 0
            omega
        · have dead := loop.connection.tick_kill_missed moment awaited aged zero
          simp [dead] at alive
      · obtain ⟨dog, -⟩ := loop.connection.tick_young moment awaited (not_le.mp aged)
        obtain ⟨awaits, misses⟩ := Prod.mk.inj dog
        rcases age jitter cadence now (show n < n + 1 + 0 by omega) with whole | ⟨-, sooner⟩
        · exact absurd whole aged
        · exact .young (awaits.trans awaited) sooner
  | young awaited sooner =>
      have aged : loop.connection.heartbeatIntervalMs ≤ moment.now - opened.due delay n := by
        rcases age jitter cadence now (show n < n + 1 + 1 by omega) with whole | ⟨next, -⟩
        · exact whole
        · omega
      by_cases zero : loop.connection.consecutiveMisses = 0
      · obtain ⟨awaits, misses⟩ :=
          Prod.mk.inj (loop.connection.tick_miss moment awaited aged zero)
        apply Unheard.missedLate
        · exact awaits.trans (congrArg some now)
        · show (loop.connection.tick moment).consecutiveMisses ≠ 0
          omega
        · exact sooner
      · have dead := loop.connection.tick_kill_missed moment awaited aged zero
        simp [dead] at alive
  | missed awaited missed =>
      by_cases aged : loop.connection.heartbeatIntervalMs ≤ moment.now - opened.due delay (n + 1)
      · have dead := loop.connection.tick_kill_missed moment awaited aged missed
        simp [dead] at alive
      · obtain ⟨dog, -⟩ := loop.connection.tick_young moment awaited (not_le.mp aged)
        obtain ⟨awaits, misses⟩ := Prod.mk.inj dog
        exact .youngAgain (awaits.trans awaited) (misses.trans_ne missed)
  | _ => omega

/-- The third tick ends the connection, unless it and the first one each came less late than the
tick before. -/
theorem kills (unheard : Unheard opened delay n loop 2) (host : Host)
    (handled : loop.handles moment = true) (now : moment.now = opened.due delay (n + 3))
    (late : delay n ≤ delay (n + 1) ∨ delay (n + 2) ≤ delay (n + 3)) :
    loop.Kills host moment := by
  refine ⟨(Bool.and_eq_true_iff.mp handled).1, ?_⟩
  rw [step_tick host handled]
  cases unheard with
  | youngAgain awaited missed =>
      apply loop.connection.tick_kill_missed moment awaited _ missed
      rcases age jitter cadence now (show n + 1 < n + 3 by omega) with whole | ⟨next, -⟩
      · exact whole
      · omega
  | missedLate awaited missed sooner =>
      apply loop.connection.tick_kill_missed moment awaited _ missed
      rcases age jitter cadence now (show n + 2 < n + 3 by omega) with whole | ⟨-, earlier⟩
      · exact whole
      · omega

end

end Unheard

/-! A run -/

theorem live_before {host : Host} {loop : SelectLoop} {turn : Turn}
    (alive : (loop.step host turn).connection.live = true) : loop.connection.live = true := by
  cases live : loop.connection.live with
  | true => rfl
  | false =>
      rw [step_dead host live, live] at alive
      cases alive

theorem ticked_cases (loop : SelectLoop) (turn : Turn) : loop.ticked turn = [] ∨
    ∃ moment, turn = .tick moment ∧ loop.handles moment = true ∧
      loop.ticked turn = [moment.now] := by
  cases turn with
  | tick moment =>
      cases handled : loop.handles moment with
      | false => exact .inl (by simp [ticked, handled])
      | true => exact .inr ⟨moment, rfl, handled, by simp [ticked, handled]⟩
  | _ => exact .inl rfl

theorem Scheduled.initial {host : Host} {opened : SelectLoop} {delay : Nat → Nat}
    {before later : List Turn} (scheduled : Scheduled host opened delay (before ++ later)) :
    Scheduled host opened delay before := by
  intro k now listed
  apply scheduled k now
  rw [ticks_append, List.getElem?_append_left]
  · exact listed
  · exact (List.getElem?_eq_some_iff.mp listed).1

/-- The tick that a run handles next comes at its time in the schedule. -/
theorem Scheduled.tick {host : Host} {opened : SelectLoop} {delay : Nat → Nat}
    {before : List Turn} {moment : Moment}
    (scheduled : Scheduled host opened delay (before ++ [.tick moment]))
    (handled : (after host opened before).handles moment = true) :
    moment.now = opened.due delay (ticks host opened before).length := by
  apply scheduled
  rw [ticks_concat]
  simp [ticked, handled]

/-- The watchdog of a run that reads no acknowledgement after a beat. -/
theorem run_unheard {host : Host} {opened : SelectLoop} {delay : Nat → Nat}
    (jitter : ∀ k, 10 * delay k < opened.interval) {before : List Turn} {beat : Moment}
    (beats : (after host opened before).Beats host beat) {later : List Turn}
    (scheduled : Scheduled host opened delay (before ++ [.tick beat] ++ later)) :
    let sent := after host opened (before ++ [.tick beat])
    sent.Silent host later → (sent.ticks host later).length ≤ 2 →
      (after host sent later).connection.live = true →
      Unheard opened delay (ticks host opened before).length (after host sent later)
        (sent.ticks host later).length := by
  intro sent silent few alive
  obtain ⟨handled, awaited⟩ := beats.awaited
  have reached : (ticks host opened (before ++ [.tick beat])).length =
      (ticks host opened before).length + 1 := by
    rw [ticks_concat]
    simp [ticked, handled]
  induction later using List.reverseRecOn with
  | nil =>
      apply Unheard.sent
      show sent.awaited = _
      rw [show sent = (after host opened before).step host (.tick beat) from after_concat .., awaited]
      exact congrArg some (scheduled.initial.tick handled)
  | append_singleton later turn ih =>
      rw [after_concat] at alive ⊢
      rw [ticks_concat] at few ⊢
      have fewer : (sent.ticks host later).length ≤ 2 := by
        rw [List.length_append] at few
        omega
      rw [← List.append_assoc] at scheduled
      have unheard := ih scheduled.initial silent.front fewer (live_before alive)
      rcases ticked_cases (after host sent later) turn with still | ⟨moment, rfl, handled, one⟩
      · rw [still, List.append_nil]
        exact unheard.still host still silent.last
      · rw [one, List.length_append] at few ⊢
        have same : after host sent later = after host opened (before ++ [.tick beat] ++ later) :=
          (after_append ..).symm
        have now := scheduled.tick (same ▸ handled)
        rw [ticks_append, List.length_append, reached] at now
        have cadence : (after host sent later).interval = opened.interval := by
          rw [same, interval_after]
        have room : (sent.ticks host later).length < 2 := by
          rw [List.length_singleton] at few
          omega
        exact unheard.tick jitter cadence host handled now room alive

/-! A run that the watchdog overlooks -/

/-- A connection between two turns with an empty queue: `k` ticks have been handled. -/
structure Stands (opened : SelectLoop) (k : Nat) (dog : Option Nat × Nat) (loop : SelectLoop) :
    Prop where
  live : loop.connection.live = true
  inbox : loop.inbox = []
  interval : loop.interval = opened.interval
  nextTick : loop.nextTick = opened.nextTick + k * opened.interval
  watchdog : loop.connection.watchdog = dog

namespace Stands

variable {opened : SelectLoop} {delay : Nat → Nat} {k : Nat} {dog : Option Nat × Nat}
  {loop : SelectLoop}

theorem handles (stands : Stands opened k dog loop) :
    loop.handles (.quiet (opened.due delay k)) = true := by
  have arrived : loop.nextTick ≤ opened.due delay k := by
    rw [stands.nextTick, due]
    omega
  simp [SelectLoop.handles, stands.live, Moment.quiet, arrived]

theorem ticked (stands : Stands opened k dog loop) :
    loop.ticked (.tick (.quiet (opened.due delay k))) = [opened.due delay k] := by
  rw [SelectLoop.ticked, stands.handles, if_pos rfl]
  rfl

/-- A tick keeps the connection, and the watchdog is what the tick makes of it. -/
theorem tick (stands : Stands opened k dog loop) (host : Host) {next : Option Nat × Nat}
    (alive : (loop.connection.tick (.quiet (opened.due delay k))).live = true)
    (judged : (loop.connection.tick (.quiet (opened.due delay k))).watchdog = next) :
    Stands opened (k + 1) next (loop.step host (.tick (.quiet (opened.due delay k)))) := by
  rw [step_tick host stands.handles]
  refine ⟨alive, stands.inbox, ?_, ?_, judged⟩
  · show (loop.connection.tick _).heartbeatIntervalMs = _
    rw [Connection.tick_interval]
    exact stands.interval
  · show loop.nextTick + loop.interval = _
    rw [stands.nextTick, stands.interval, Nat.add_mul]
    omega

theorem tick_idle (stands : Stands opened k (none, 0) loop) (host : Host) :
    Stands opened (k + 1) (some (opened.due delay k), 0)
      (loop.step host (.tick (.quiet (opened.due delay k)))) := by
  obtain ⟨none, zero⟩ := Prod.mk.inj stands.watchdog
  apply stands.tick host
  · rw [loop.connection.tick_live _ zero, stands.live]
  · rw [loop.connection.tick_none _ none, zero]
    rfl

theorem tick_young {sentAt misses : Nat} (stands : Stands opened k (some sentAt, misses) loop)
    (host : Host) (young : opened.due delay k - sentAt < opened.interval) :
    Stands opened (k + 1) (some sentAt, misses)
      (loop.step host (.tick (.quiet (opened.due delay k)))) := by
  obtain ⟨some, same⟩ := Prod.mk.inj stands.watchdog
  rw [← stands.interval] at young
  obtain ⟨dog, alive⟩ := loop.connection.tick_young (.quiet (opened.due delay k)) some young
  apply stands.tick host
  · rw [alive, stands.live]
  · rw [dog, stands.watchdog]

theorem tick_miss {sentAt : Nat} (stands : Stands opened k (some sentAt, 0) loop)
    (host : Host) (aged : opened.interval ≤ opened.due delay k - sentAt) :
    Stands opened (k + 1) (some (opened.due delay k), 1)
      (loop.step host (.tick (.quiet (opened.due delay k)))) := by
  obtain ⟨some, zero⟩ := Prod.mk.inj stands.watchdog
  rw [← stands.interval] at aged
  apply stands.tick host
  · rw [loop.connection.tick_live _ zero, stands.live]
  · exact loop.connection.tick_miss (.quiet (opened.due delay k)) some aged zero

/-- An acknowledgement arrives and is read at once. -/
theorem acknowledged (stands : Stands opened k dog loop) (host : Host) :
    Stands opened k (none, 0)
      ((loop.step host (.arrive (.text (.heartbeatAck 0)))).step host (.read (.quiet 0))) := by
  have arrived : loop.step host (.arrive (.text (.heartbeatAck 0))) =
      { loop with inbox := [.text (.heartbeatAck 0)] } := by
    simp [step, stands.live, stands.inbox]
  rw [arrived]
  simp only [step, stands.live, Message.event, handle, Connection.step, Bool.not_true,
    Bool.false_eq_true, if_false, if_true]
  exact ⟨rfl, rfl, stands.interval, stands.nextTick, rfl⟩

end Stands

/-- Every tick is acknowledged before the next one. -/
def answeredTurns (opened : SelectLoop) (delay : Nat → Nat) (n : Nat) : List Turn :=
  (List.range n).flatMap fun k => [.tick (.quiet (opened.due delay k)),
    .arrive (.text (.heartbeatAck 0)), .read (.quiet 0)]

theorem answeredTurns_succ (opened : SelectLoop) (delay : Nat → Nat) (n : Nat) :
    answeredTurns opened delay (n + 1) = answeredTurns opened delay n ++
      [.tick (.quiet (opened.due delay n))] ++ [.arrive (.text (.heartbeatAck 0))] ++
        [.read (.quiet 0)] := by
  simp [answeredTurns, List.range_succ]

theorem scheduled_of_ticks {host : Host} {opened : SelectLoop} {delay : Nat → Nat}
    {turns : List Turn} {n : Nat}
    (listed : ticks host opened turns = (List.range n).map (opened.due delay)) :
    Scheduled host opened delay turns := by
  intro k now found
  rw [listed, List.getElem?_map] at found
  obtain ⟨index, ranged, rfl⟩ := Option.map_eq_some_iff.mp found
  obtain ⟨inside, rfl⟩ := List.getElem?_eq_some_iff.mp ranged
  rw [List.getElem_range]
  rfl

section

variable (host : Host) {opened : SelectLoop} (delay : Nat → Nat)

theorem answeredTurns_stands (start : Stands opened 0 (none, 0) opened) (n : Nat) :
    Stands opened n (none, 0) (after host opened (answeredTurns opened delay n)) ∧
      ticks host opened (answeredTurns opened delay n) = (List.range n).map (opened.due delay) := by
  induction n with
  | zero => exact ⟨start, rfl⟩
  | succ n ih =>
      obtain ⟨stands, listed⟩ := ih
      rw [answeredTurns_succ]
      simp only [after_concat, ticks_concat]
      constructor
      · exact (stands.tick_idle host).acknowledged host
      · rw [listed, stands.ticked]
        simp [ticked, List.range_succ]

end

theorem beats_of_idle {host : Host} {loop : SelectLoop} {moment : Moment}
    (handled : loop.handles moment = true) (none : loop.awaited = none) :
    loop.Beats host moment := by
  have swept := (loop.connection.client.sweepExpiredParked_kept moment).1
  have idle : loop.connection.expectedHeartbeat = Option.none := none
  rw [Beats, step_tick host handled]
  simp [Connection.tick, idle, Connection.sendHeartbeat, WsClient.send, swept]

theorem opened_stands (connection : Connection) (scopes : Scopes)
    (heartbeatIntervalMs openedAt : Nat) :
    let opened := SelectLoop.opened connection scopes heartbeatIntervalMs openedAt
    Stands opened 0 (none, 0) opened := by
  intro opened
  refine ⟨rfl, rfl, rfl, ?_, rfl⟩
  rw [Nat.zero_mul, Nat.add_zero]

/-- The three ticks after an unanswered beat, of which the first and the last find it young. -/
def overlookedTurns (opened : SelectLoop) (delay : Nat → Nat) (n : Nat) : List Turn :=
  [.tick (.quiet (opened.due delay (n + 1))), .tick (.quiet (opened.due delay (n + 2)))]

theorem overlooked_silent (host : Host) (opened loop : SelectLoop) (delay : Nat → Nat) (n : Nat) :
    loop.Silent host (overlookedTurns opened delay n) := by
  intro before turn rest same
  have listed : turn ∈ overlookedTurns opened delay n := by simp [same]
  rcases List.mem_pair.mp listed with rfl | rfl
  · rfl
  · rfl

/-- The watchdog overlooks the beat of tick `n`. -/
theorem overlooked (host : Host) {opened : SelectLoop} {delay : Nat → Nat}
    (start : Stands opened 0 (none, 0) opened) (jitter : ∀ k, 10 * delay k < opened.interval)
    {n : Nat} (first : delay (n + 1) < delay n) (second : delay (n + 3) < delay (n + 2)) :
    ∃ turns, Scheduled host opened delay turns ∧ ¬ Detected host opened turns := by
  let answered := answeredTurns opened delay n
  let later := overlookedTurns opened delay n
  let beat := Moment.quiet (opened.due delay n)
  let third := Moment.quiet (opened.due delay (n + 3))
  obtain ⟨rested, listed⟩ := answeredTurns_stands host delay start n
  have sent : Stands opened (n + 1) (some (opened.due delay n), 0)
      ((after host opened answered).step host (.tick beat)) := rested.tick_idle host
  have bound := jitter n
  have young : opened.due delay (n + 1) - opened.due delay n < opened.interval := by
    rw [due, due, Nat.add_mul]
    omega
  have early := sent.tick_young host young
  have aged : opened.interval ≤ opened.due delay (n + 2) - opened.due delay n := by
    rw [due, due, Nat.add_mul]
    omega
  have missed := early.tick_miss host aged
  have again : opened.due delay (n + 3) - opened.due delay (n + 2) < opened.interval := by
    rw [due, due, Nat.add_mul, Nat.add_mul]
    omega
  have spared := missed.tick_young host again
  have turns : after host (after host opened (answered ++ [.tick beat])) later =
      (((after host opened answered).step host (.tick beat)).step host
        (.tick (.quiet (opened.due delay (n + 1))))).step host
          (.tick (.quiet (opened.due delay (n + 2)))) := by
    rw [after_concat]
    rfl
  refine ⟨answered ++ .tick beat :: (later ++ [.tick third]), ?_, ?_⟩
  · apply scheduled_of_ticks (n := n + 4)
    have flat : answered ++ .tick beat :: (later ++ [.tick third]) =
        answered ++ [.tick beat] ++ [.tick (.quiet (opened.due delay (n + 1)))] ++
          [.tick (.quiet (opened.due delay (n + 2)))] ++ [.tick third] := by
      simp [later, overlookedTurns]
    rw [flat]
    simp only [ticks_concat, after_concat]
    rw [listed, rested.ticked, sent.ticked, early.ticked, missed.ticked]
    simp [List.range_succ]
  · intro detected
    have listedLater : ticks host (after host opened (answered ++ [.tick beat])) later =
        [opened.due delay (n + 1), opened.due delay (n + 2)] := by
      have flat : later = [] ++ [.tick (.quiet (opened.due delay (n + 1)))] ++
          [.tick (.quiet (opened.due delay (n + 2)))] := rfl
      rw [flat]
      simp only [ticks_concat, after_concat]
      show [] ++ ticked ((after host opened answered).step host (.tick beat)) _ ++ _ = _
      rw [sent.ticked]
      show [_] ++ ticked (((after host opened answered).step host (.tick beat)).step host
        (.tick (.quiet (opened.due delay (n + 1))))) _ = _
      rw [early.ticked]
      rfl
    have killed := detected answered beat later third rfl
      (beats_of_idle rested.handles (Prod.mk.inj rested.watchdog).1)
      (overlooked_silent host opened _ delay n) (by rw [listedLater]; rfl)
      (by rw [turns]; exact missed.handles)
    have dead := killed.2
    rw [turns, spared.live] at dead
    cases dead

/-- On a schedule every dead path is detected by the third tick after a beat, except when the first
tick is less late than the beat and the third one is less late than the second. -/
theorem detection_iff (host : Host) (connection : Connection) (scopes : Scopes)
    (heartbeatIntervalMs openedAt : Nat) (delay : Nat → Nat)
    (jitter : ∀ k, 10 * delay k <
      (SelectLoop.opened connection scopes heartbeatIntervalMs openedAt).interval) :
    let opened := SelectLoop.opened connection scopes heartbeatIntervalMs openedAt
    (∀ turns, Scheduled host opened delay turns → Detected host opened turns) ↔
      ∀ n, delay n ≤ delay (n + 1) ∨ delay (n + 2) ≤ delay (n + 3) := by
  intro opened
  constructor
  · intro detects n
    by_contra overlooks
    simp only [not_or, not_le] at overlooks
    obtain ⟨turns, scheduled, missed⟩ := overlooked host
      (opened_stands connection scopes heartbeatIntervalMs openedAt) jitter overlooks.1 overlooks.2
    exact missed (detects turns scheduled)
  · rintro late turns scheduled before beat later third rfl sent beats silent two handled
    have flat : before ++ .tick beat :: (later ++ [.tick third]) =
        before ++ [.tick beat] ++ later ++ [.tick third] := by
      simp
    rw [flat] at scheduled
    have alive : (after host sent later).connection.live = true := (Bool.and_eq_true_iff.mp handled).1
    have unheard := run_unheard jitter beats scheduled.initial silent two.le alive
    rw [two] at unheard
    have same : after host sent later = after host opened (before ++ [.tick beat] ++ later) :=
      (after_append ..).symm
    have now := scheduled.tick (same ▸ handled)
    have counted : (ticks host opened (before ++ [.tick beat] ++ later)).length =
        (ticks host opened before).length + 3 := by
      rw [ticks_append, ticks_concat, List.length_append, List.length_append, two]
      simp [ticked, beats.awaited.1]
    rw [counted] at now
    have cadence : (after host sent later).interval = opened.interval := by
      rw [same, interval_after]
    exact unheard.kills jitter cadence host handled now (late _)

/-- A loop that is never late detects every dead path. -/
theorem detection_punctual :
    let opened := SelectLoop.opened ⟨.start (.ofScopes ⟨[], []⟩) none .empty, none, 0, 0, false⟩
      ⟨[], []⟩ 30000 0
    ∀ turns, Scheduled .quiet opened (fun _ => 0) turns → Detected .quiet opened turns :=
  (detection_iff .quiet ⟨.start (.ofScopes ⟨[], []⟩) none .empty, none, 0, 0, false⟩ ⟨[], []⟩
    30000 0 (fun _ => 0) (by intro k; decide)).mpr (fun _ => .inl le_rfl)

/-- Every other tick comes one second late. -/
def swingingDelay (k : Nat) : Nat := if k % 2 = 0 then 1000 else 0

/-- Ticks that come late in turn hide a dead path for a whole interval more. -/
theorem dead_path_overlooked :
    ¬ ∀ (host : Host) (connection : Connection) (scopes : Scopes)
      (heartbeatIntervalMs openedAt : Nat) (delay : Nat → Nat),
      let opened := SelectLoop.opened connection scopes heartbeatIntervalMs openedAt
      1000 ≤ opened.interval → (∀ k, 10 * delay k < opened.interval) →
        ∀ turns, Scheduled host opened delay turns → Detected host opened turns := by
  intro claim
  have interval : (SelectLoop.opened ⟨.start (.ofScopes ⟨[], []⟩) none .empty, none, 0, 0, false⟩
      ⟨[], []⟩ 30000 0).interval = 30000 := rfl
  have jitter : ∀ k, 10 * swingingDelay k < 30000 := by
    intro k
    unfold swingingDelay
    split <;> decide
  obtain ⟨turns, scheduled, missed⟩ := overlooked .quiet
    (opened_stands ⟨.start (.ofScopes ⟨[], []⟩) none .empty, none, 0, 0, false⟩ ⟨[], []⟩ 30000 0)
    jitter (show swingingDelay (0 + 1) < swingingDelay 0 by decide)
    (show swingingDelay (0 + 3) < swingingDelay (0 + 2) by decide)
  exact missed (claim .quiet _ ⟨[], []⟩ 30000 0 swingingDelay (by rw [interval]; decide) jitter
    turns scheduled)

end SelectLoop

end Daemon
