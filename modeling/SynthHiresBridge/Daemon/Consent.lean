import Mathlib.Data.List.AList
import SynthHiresBridge.Daemon.Protocol

namespace Daemon

/-- The daemon waits this long for an answer. -/
def consentTimeoutMs : Nat := 180000

structure ConsentPrompt where
  actionId : String
  capability : String
  summary : String
  path : Option String
  deriving DecidableEq

structure ConsentAnswer where
  approved : Bool
  remember : Bool
  deriving DecidableEq

/-- A prompt on screen remembers the request that raised it. The request serves the statements
about runs, and no operation reads it. -/
structure PendingPrompt where
  prompt : ConsentPrompt
  raisedBy : ActionRequestFrame

/-- A decision waits for the loop. The prompt it was given to serves the statements about runs. -/
structure Decision where
  actionId : String
  answer : ConsentAnswer
  given : PendingPrompt

/-- The broker has the prompts on screen and the decisions that the loop has not taken. -/
structure ConsentBroker where
  pending : AList fun _ : String => PendingPrompt
  notifier : List Decision

namespace ConsentBroker

def empty : ConsentBroker := ⟨∅, []⟩

/-- A prompt replaces the prompt with its action id. -/
def ask (broker : ConsentBroker) (prompt : ConsentPrompt) (raisedBy : ActionRequestFrame) :
    ConsentBroker :=
  { broker with pending := broker.pending.insert prompt.actionId ⟨prompt, raisedBy⟩ }

/-- An answer takes its prompt off the screen and wakes the loop. -/
def answer (broker : ConsentBroker) (actionId : String) (answer : ConsentAnswer) : ConsentBroker :=
  match broker.pending.lookup actionId with
  | none => broker
  | some given =>
      ⟨broker.pending.erase actionId, broker.notifier ++ [⟨actionId, answer, given⟩]⟩

@[simp] theorem ask_notifier (broker : ConsentBroker) (prompt : ConsentPrompt)
    (raisedBy : ActionRequestFrame) : (broker.ask prompt raisedBy).notifier = broker.notifier := rfl

theorem ask_lookup (broker : ConsentBroker) (prompt : ConsentPrompt)
    (raisedBy : ActionRequestFrame) (id : String) :
    (broker.ask prompt raisedBy).pending.lookup id =
      if id = prompt.actionId then some ⟨prompt, raisedBy⟩ else broker.pending.lookup id := by
  by_cases same : id = prompt.actionId
  · subst same
    simp [ask]
  · simp [ask, same]

/-- An answer changes the screen and the queue for its own id only. -/
theorem answer_eq (broker : ConsentBroker) (actionId : String) (given : ConsentAnswer) :
    (broker.pending.lookup actionId = none ∧ broker.answer actionId given = broker) ∨
      ∃ prompt, broker.pending.lookup actionId = some prompt ∧
        (broker.answer actionId given).notifier = broker.notifier ++ [⟨actionId, given, prompt⟩] ∧
        ∀ id, (broker.answer actionId given).pending.lookup id =
          if id = actionId then none else broker.pending.lookup id := by
  unfold answer
  cases held : broker.pending.lookup actionId with
  | none => exact .inl ⟨rfl, rfl⟩
  | some prompt =>
      refine .inr ⟨prompt, rfl, rfl, fun id => ?_⟩
      by_cases same : id = actionId
      · subst same
        simp
      · simp [same]

end ConsentBroker

end Daemon
