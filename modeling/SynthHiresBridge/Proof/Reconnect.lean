import SynthHiresBridge.Daemon.ClientStart

namespace Daemon.Reconnect

/-- The message with which an attempt ends the loop. -/
def Attempt.ends (attempt : Attempt) : Option String :=
  match attempt.result with
  | .error (.protocol message) => if fatal message then some message else none
  | _ => none

/-- A clean end starts the doubling after its short wait, and every other end goes on with it. -/
def Attempt.nextDoublings (earlier : Nat) (attempt : Attempt) : Nat :=
  if attempt.result.isOk then 1 else earlier + 1

/-- How often the backoff has been doubled before the next attempt. -/
def doublings (attempts : List Attempt) : Nat := attempts.foldl Attempt.nextDoublings 0

/-- The seconds to wait after an attempt. -/
def Attempt.seconds (earlier : List Attempt) (attempt : Attempt) : Nat :=
  if attempt.result.isOk then 1 else min (2 ^ doublings earlier) 30

def Attempt.wait (earlier : List Attempt) (attempt : Attempt) : Nat :=
  attempt.seconds earlier * 1000 + attempt.random % 1000

/-- The health after an attempt, with the error that it leaves. -/
def Attempt.leaves (attempt : Attempt) (health : WsHealth) (told : String) : WsHealth :=
  WsHealth.markDisconnected
    { attempt.connectedAt.elim health health.markConnected with lastError := told } attempt.endedAt

/-- A turn ends the loop, or it waits. -/
inductive Turned (loop : Loop) (attempt : Attempt) : Loop × Option String → Prop where
  | ended (message told : String) (last : attempt.ends = some message) :
      Turned loop attempt
        ({ loop with health := attempt.leaves loop.health told }, some message)
  | paused (told : String) (goes : attempt.ends = none) :
      Turned loop attempt
        (Loop.pause ⟨if attempt.result.isOk then 1 else loop.backoff,
          attempt.leaves loop.health told, loop.waits⟩ attempt.random, none)

theorem turn_turned (loop : Loop) (attempt : Attempt) :
    Turned loop attempt (loop.turn attempt) := by
  have paused := @Turned.paused loop attempt
  unfold Loop.turn
  unfold Attempt.ends at paused
  cases ended : attempt.result with
  | ok _ =>
      rw [ended] at paused
      exact paused _ rfl
  | error error =>
      rw [ended] at paused
      cases error with
      | protocol message =>
          simp only
          by_cases last : fatal message = true
          · rw [if_pos last]
            exact .ended message message (by simp [Attempt.ends, ended, last])
          · rw [if_neg last]
            exact paused _ (by simp [last])
      | other text => exact paused text rfl

theorem markDisconnected_down (health : WsHealth) (now : Nat) :
    (health.markDisconnected now).connected = false := by
  unfold WsHealth.markDisconnected
  split
  · rfl
  · rename_i down
    simpa using down

/-- A run goes on after an attempt that does not end it. -/
theorem run_cons (loop : Loop) (attempt : Attempt) (rest : List Attempt) :
    run loop (attempt :: rest) =
      if attempt.ends.isNone then run (loop.turn attempt).1 rest else loop.turn attempt := by
  have turned := turn_turned loop attempt
  rw [run]
  generalize loop.turn attempt = result at turned ⊢
  cases turned with
  | ended message told last => simp [last]
  | paused told goes => simp [goes]

/-- Before each attempt no connection is up, and the ones that were are counted. -/
structure Counted (loop : Loop) (attempts : List Attempt) : Prop where
  down : loop.health.connected = false
  reconnects : loop.health.reconnects = attempts.countP (·.connectedAt.isSome)

theorem turn_counted {loop : Loop} {earlier : List Attempt} (counted : Counted loop earlier)
    (attempt : Attempt) : Counted (loop.turn attempt).1 (earlier ++ [attempt]) := by
  have health : ∃ told, (loop.turn attempt).1.health = attempt.leaves loop.health told := by
    have turned := turn_turned loop attempt
    generalize loop.turn attempt = result at turned ⊢
    cases turned with
    | ended _ told _ | paused told _ => exact ⟨told, rfl⟩
  obtain ⟨told, health⟩ := health
  refine ⟨by rw [health, Attempt.leaves, markDisconnected_down], ?_⟩
  rw [health, Attempt.leaves, List.countP_append, ← counted.reconnects]
  cases up : attempt.connectedAt with
  | none => simp [WsHealth.markDisconnected, counted.down, up]
  | some now => simp [WsHealth.markDisconnected, WsHealth.markConnected, up]

/-- The attempts that the loop goes on after. -/
def tried (attempts : List Attempt) : List Attempt := attempts.takeWhile (·.ends.isNone)

theorem min_doubled (count : Nat) :
    min (min (2 ^ count) 30 * 2) 30 = min (2 ^ (count + 1)) 30 := by
  rw [Nat.pow_succ]
  omega

/-- The loop after some attempts has doubled its backoff as often as they say. -/
structure Paced (loop : Loop) (attempts : List Attempt) : Prop where
  backoff : loop.backoff = min (2 ^ doublings attempts) 30
  waits : ∀ before attempt after, attempts = before ++ attempt :: after →
    loop.waits[before.length]? = some (attempt.wait before)
  length : loop.waits.length = attempts.length

/-- One more wait keeps the pace. -/
theorem Paced.pause {loop : Loop} {earlier : List Attempt} {attempt : Attempt} {health : WsHealth}
    (paced : Paced loop earlier) :
    Paced (Loop.pause ⟨if attempt.result.isOk then 1 else loop.backoff, health, loop.waits⟩
      attempt.random) (earlier ++ [attempt]) := by
  refine ⟨?_, ?_, by simp [Loop.pause, paced.length]⟩
  · rw [doublings, List.foldl_append, List.foldl_cons, List.foldl_nil, Attempt.nextDoublings,
      Loop.pause]
    dsimp only
    split
    · rfl
    · rw [paced.backoff, min_doubled]
      rfl
  · intro before other after split
    rcases List.eq_nil_or_concat after with rfl | ⟨middle, final, rfl⟩
    · obtain ⟨rfl, same⟩ := List.append_inj' split rfl
      obtain rfl : attempt = other := by simpa using same
      rw [Loop.pause, ← paced.length, List.getElem?_concat_length, Attempt.wait, Attempt.seconds,
        paced.backoff]
    · have shape : before ++ other :: (middle ++ [final]) =
          (before ++ other :: middle) ++ [final] := by simp
      rw [List.concat_eq_append, shape] at split
      obtain ⟨rfl, -⟩ := List.append_inj' split rfl
      rw [Loop.pause, List.getElem?_append_left, paced.waits before other middle rfl]
      rw [paced.length, List.length_append, List.length_cons]
      omega

theorem turn_paced {loop : Loop} {earlier : List Attempt} (paced : Paced loop earlier)
    (attempt : Attempt) :
    Paced (loop.turn attempt).1 (earlier ++ tried [attempt]) ∧
      (loop.turn attempt).2 = attempt.ends := by
  have turned := turn_turned loop attempt
  generalize loop.turn attempt = result at turned ⊢
  cases turned with
  | ended message told last =>
      refine ⟨?_, last.symm⟩
      have none : tried [attempt] = [] := by simp [tried, last]
      rw [none, List.append_nil]
      exact ⟨paced.backoff, paced.waits, paced.length⟩
  | paused told goes =>
      refine ⟨?_, goes.symm⟩
      have one : tried [attempt] = [attempt] := by simp [tried, goes]
      rw [one]
      exact paced.pause

theorem run_paced {loop : Loop} {earlier : List Attempt} (paced : Paced loop earlier)
    (counted : Counted loop earlier) (attempts : List Attempt) :
    Paced (run loop attempts).1 (earlier ++ tried attempts) ∧
      (run loop attempts).2 = attempts.findSome? Attempt.ends ∧
      Counted (run loop attempts).1 (earlier ++ attempts.take ((tried attempts).length + 1)) := by
  induction attempts generalizing loop earlier with
  | nil => simpa [run, tried] using ⟨paced, counted⟩
  | cons attempt rest ih =>
      obtain ⟨next, ended⟩ := turn_paced paced attempt
      have kept := turn_counted counted attempt
      rw [run_cons]
      cases goes : attempt.ends with
      | none =>
          have one : tried [attempt] = [attempt] := by simp [tried, goes]
          rw [one] at next
          have later := ih next kept
          simpa [tried, List.takeWhile_cons, goes, List.append_assoc] using later
      | some message =>
          rw [goes] at ended
          have none : tried (attempt :: rest) = tried [attempt] := by simp [tried, goes]
          rw [none]
          refine ⟨next, by simp [goes, ended], ?_⟩
          simpa [tried, goes] using kept

theorem wait_bounds (earlier : List Attempt) (attempt : Attempt) :
    1000 ≤ attempt.wait earlier ∧ attempt.wait earlier < 31000 := by
  have least : 1 ≤ 2 ^ doublings earlier := Nat.one_le_two_pow
  have below : attempt.random % 1000 < 1000 := Nat.mod_lt _ (by decide)
  unfold Attempt.wait Attempt.seconds
  split <;> omega

/-- The loop ends with the first fatal error, and only then. It waits once after each attempt before
that: a second after a clean end, and else as many seconds as the backoff says, which doubles from
attempt to attempt up to thirty and starts anew after a clean end, plus less than a second. The
counter of reconnects counts the connections that were acknowledged. -/
theorem reconnects_exactly (attempts : List Attempt) :
    (run .start attempts).2 = attempts.findSome? Attempt.ends ∧
    (run .start attempts).1.waits.length = (tried attempts).length ∧
    (∀ before attempt after, tried attempts = before ++ attempt :: after →
      (run .start attempts).1.waits[before.length]? = some (attempt.wait before)) ∧
    (∀ wait ∈ (run .start attempts).1.waits, 1000 ≤ wait ∧ wait < 31000) ∧
    (run .start attempts).1.health.connected = false ∧
    (run .start attempts).1.health.reconnects =
      (attempts.take ((tried attempts).length + 1)).countP (·.connectedAt.isSome) := by
  have fresh : Paced Loop.start [] := by
    refine ⟨rfl, fun before attempt after split => ?_, rfl⟩
    simp at split
  obtain ⟨paced, ended, counted⟩ :=
    run_paced fresh (⟨rfl, rfl⟩ : Counted Loop.start []) attempts
  rw [List.nil_append] at paced counted
  refine ⟨ended, paced.length, paced.waits, ?_, counted.down, counted.reconnects⟩
  intro wait member
  obtain ⟨place, inside, rfl⟩ := List.mem_iff_getElem.mp member
  have within : place < (tried attempts).length := paced.length ▸ inside
  have split : tried attempts = (tried attempts).take place ++
      (tried attempts)[place] :: (tried attempts).drop (place + 1) := by
    rw [List.getElem_cons_drop, List.take_append_drop]
  have found := paced.waits _ _ _ split
  rw [List.length_take, Nat.min_eq_left within.le, List.getElem?_eq_getElem inside] at found
  rw [Option.some.inj found]
  exact wait_bounds _ _

/-- A connection drops, the server cannot be reached, and then the device is revoked. -/
def revokedDevice : List Attempt :=
  [⟨some 5, 9, .ok (), 1250⟩, ⟨none, 12, .error (.other "ws error: refused"), 40⟩,
    ⟨some 20, 30, .error (.protocol "revoked"), 7⟩]

theorem revoked_device_stops : (run .start revokedDevice).2 = some "revoked" ∧
    (run .start revokedDevice).1.waits[1]? = some 2040 :=
  ⟨(reconnects_exactly revokedDevice).1.trans (by decide),
    (reconnects_exactly revokedDevice).2.2.1 [⟨some 5, 9, .ok (), 1250⟩]
      ⟨none, 12, .error (.other "ws error: refused"), 40⟩ [] (by rfl)⟩

end Daemon.Reconnect
