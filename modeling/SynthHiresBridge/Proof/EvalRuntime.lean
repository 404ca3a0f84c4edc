import SynthHiresBridge.Daemon.EvalRuntime

namespace Daemon

namespace EvalEngine

namespace JsSessions

/-- Every session has a context that was created for it. -/
def WellFormed (sessions : JsSessions) : Prop :=
  ∀ session entry, sessions.entries.lookup session = some entry →
    sessions.contexts[entry.context]? = some session

/-- The context that a session runs its next request in. -/
def contextFor (sessions : JsSessions) (session : String) : Nat :=
  (sessions.entries.lookup session).elim sessions.contexts.length JsEntry.context

theorem lookup_exec (sessions : JsSessions) (id session other : String) :
    (sessions.exec id session).entries.lookup other =
      if other = session then some ⟨sessions.contextFor session, id⟩
      else sessions.entries.lookup other := by
  rw [exec, contextFor]
  cases sessions.entries.lookup session with
  | some entry =>
      by_cases same : other = session
      · rw [if_pos same, same]
        exact AList.lookup_insert _
      · rw [if_neg same]
        exact AList.lookup_insert_ne same
  | none =>
      by_cases same : other = session
      · rw [if_pos same, same]
        exact AList.lookup_insert _
      · rw [if_neg same]
        exact AList.lookup_insert_ne same

theorem lookup_destroy (sessions : JsSessions) (session other : String) :
    (sessions.destroy session).entries.lookup other =
      if other = session then none else sessions.entries.lookup other := by
  by_cases same : other = session
  · rw [if_pos same, same]
    exact AList.lookup_erase _ _
  · rw [if_neg same]
    exact AList.lookup_erase_ne same

theorem contexts_exec (sessions : JsSessions) (id session : String) :
    sessions.contexts <+: (sessions.exec id session).contexts := by
  rw [exec]
  split
  · exact List.prefix_rfl
  · exact List.prefix_append _ _

theorem contexts_obey (sessions : JsSessions) (command : EvalCommand) :
    sessions.contexts <+: (sessions.obey command).contexts := by
  cases command with
  | exec id session code => exact sessions.contexts_exec id session
  | destroy id session => exact List.prefix_rfl

/-- The context of a session is its own. -/
theorem getElem_contextFor {sessions : JsSessions} (formed : sessions.WellFormed) (id session : String) :
    (sessions.exec id session).contexts[sessions.contextFor session]? = some session := by
  rw [exec, contextFor]
  cases held : sessions.entries.lookup session with
  | some entry => exact formed session entry held
  | none => exact List.getElem?_concat_length

theorem getElem_of_prefix {shorter longer : List String} (front : shorter <+: longer) {place : Nat}
    {session : String} (held : shorter[place]? = some session) : longer[place]? = some session := by
  obtain ⟨rest, rfl⟩ := front
  obtain ⟨inside, -⟩ := List.getElem?_eq_some_iff.mp held
  rw [List.getElem?_append_left inside]
  exact held

theorem WellFormed.obey {sessions : JsSessions} (formed : sessions.WellFormed)
    (command : EvalCommand) : (sessions.obey command).WellFormed := by
  intro other entry held
  cases command with
  | destroy id session =>
      change (sessions.destroy session).entries.lookup other = some entry at held
      rw [lookup_destroy] at held
      split at held
      · cases held
      · exact formed other entry held
  | exec id session code =>
      change (sessions.exec id session).entries.lookup other = some entry at held
      rw [lookup_exec] at held
      split at held
      · rename_i same
        cases held
        rw [same]
        exact getElem_contextFor formed id session
      · exact getElem_of_prefix (sessions.contexts_exec id session) (formed other entry held)

end JsSessions

namespace JsRuntime

/-- A runtime has written its console lines for the sessions of their contexts, in Unicode. -/
structure Sound (runtime : JsRuntime) : Prop where
  formed : runtime.sessions.WellFormed
  taken : runtime.taken ≤ runtime.written.length
  tagged : ∀ context id session stream text, .console context id session stream text ∈ runtime.written →
    runtime.sessions.contexts[context]? = some session ∧ text.isSome

theorem sound_spawned (process : Nat) (alive : Bool) : Sound (spawned process alive) := by
  refine ⟨?_, Nat.le_refl 0, ?_⟩
  · intro session entry held
    cases held
  · intro context id session stream text member
    cases member

theorem settled_formed {runtime : JsRuntime} (sound : Sound runtime) :
    runtime.settled.WellFormed ∧ runtime.sessions.contexts <+: runtime.settled.contexts := by
  rw [settled]
  have formed := sound.formed
  generalize runtime.sessions = sessions at formed ⊢
  induction runtime.stdin generalizing sessions with
  | nil => exact ⟨formed, List.prefix_rfl⟩
  | cons command rest ih =>
      obtain ⟨later, front⟩ := ih (sessions.obey command) (formed.obey command)
      exact ⟨later, (sessions.contexts_obey command).trans front⟩

/-- What a step of a runtime leaves as it is. -/
structure Advances (before after : JsRuntime) : Prop where
  process : after.process = before.process
  taken : after.taken = before.taken
  settled : after.settled = before.settled
  written : before.written <+: after.written
  alive : after.alive = true → before.alive = true

theorem Advances.refl (runtime : JsRuntime) : Advances runtime runtime :=
  ⟨rfl, rfl, rfl, List.prefix_rfl, fun alive => alive⟩

/-- The console lines that a step writes are Unicode. -/
def Unicode : JsEvent → Prop
  | .console _ _ text => text.isSome
  | _ => True

theorem Sound.send {runtime : JsRuntime} (sound : Sound runtime) {frame : Frame}
    (tagged : ∀ context id session stream text, frame = .console context id session stream text →
      runtime.sessions.contexts[context]? = some session ∧ text.isSome) :
    Sound (runtime.send frame) := by
  refine ⟨sound.formed, ?_, ?_⟩
  · have longer : (runtime.send frame).written.length = runtime.written.length + 1 := by
      simp [JsRuntime.send]
    rw [longer]
    exact Nat.le_succ_of_le sound.taken
  · intro context id session stream text member
    rcases List.mem_append.mp member with old | last
    · exact sound.tagged context id session stream text old
    · exact tagged context id session stream text (List.mem_singleton.mp last).symm

theorem advances_send (runtime : JsRuntime) (frame : Frame) :
    Advances runtime (runtime.send frame) :=
  ⟨rfl, rfl, rfl, List.prefix_append _ _, fun alive => alive⟩

/-- A runtime that obeys its next command. -/
theorem step_command {runtime : JsRuntime} (sound : Sound runtime) {command : EvalCommand}
    {rest : List EvalCommand} (next : runtime.stdin = command :: rest) :
    Sound (({ runtime with stdin := rest }).handle command) ∧
      Advances runtime (({ runtime with stdin := rest }).handle command) := by
  let obeys : JsRuntime := { runtime with stdin := rest, sessions := runtime.sessions.obey command }
  have obeyed : Sound obeys := by
    refine ⟨sound.formed.obey command, sound.taken, ?_⟩
    intro context id session stream text member
    obtain ⟨held, unicode⟩ := sound.tagged context id session stream text member
    exact ⟨JsSessions.getElem_of_prefix (runtime.sessions.contexts_obey command) held, unicode⟩
  have settled : obeys.settled = runtime.settled := by
    rw [JsRuntime.settled, JsRuntime.settled, next]
    rfl
  cases command with
  | destroy id session =>
      refine ⟨obeyed.send nofun, ?_⟩
      exact ⟨rfl, rfl, settled, List.prefix_append _ _, fun alive => alive⟩
  | exec id session code =>
      refine ⟨⟨obeyed.formed, obeyed.taken, obeyed.tagged⟩, ?_⟩
      exact ⟨rfl, rfl, settled, List.prefix_rfl, fun alive => alive⟩

theorem step_advances {runtime : JsRuntime} (sound : Sound runtime) {event : JsEvent}
    (unicode : Unicode event) : Sound (runtime.step event) ∧ Advances runtime (runtime.step event) := by
  rw [step.eq_def]
  split
  · exact ⟨sound, .refl runtime⟩
  · cases event with
    | command =>
        dsimp only
        split
        · exact ⟨sound, .refl runtime⟩
        · rename_i command rest next
          exact step_command sound next
    | console context stream text =>
        dsimp only
        split
        · rename_i session held
          refine ⟨sound.send ?_, advances_send runtime _⟩
          intro other id named kind given same
          cases same
          exact ⟨held, unicode⟩
        · exact ⟨sound, .refl runtime⟩
    | settle request outcome =>
        dsimp only
        split
        · have done : Sound { runtime with running := runtime.running.erase request } :=
            ⟨sound.formed, sound.taken, sound.tagged⟩
          refine ⟨done.send ?_, ?_⟩
          · intro context id session stream text same
            cases outcome with
            | value result => cases same
            | thrown message => cases same
          · exact ⟨rfl, rfl, rfl, List.prefix_append _ _, fun alive => alive⟩
        · exact ⟨sound, .refl runtime⟩
    | die =>
        refine ⟨⟨sound.formed, sound.taken, sound.tagged⟩, rfl, rfl, rfl, List.prefix_rfl, ?_⟩
        intro alive
        cases alive

/-- A command that is written comes after all others. -/
theorem settled_write {runtime written : JsRuntime} {command : EvalCommand}
    (done : runtime.write command = some written) :
    runtime.alive = true ∧ written = { runtime with stdin := runtime.stdin ++ [command] } ∧
      written.settled = runtime.settled.obey command := by
  rw [write] at done
  split at done
  · rename_i alive
    cases done
    refine ⟨alive, rfl, ?_⟩
    simp [settled]
  · cases done

end JsRuntime

end EvalEngine

end Daemon
