import SynthHiresBridge.Daemon.JsonRpc

namespace Daemon

open Json Transition

namespace LspEngine

/-- The board of a language server after a run of turns. -/
abbrev afterTurns (turns : List (Transition.Turn CallKind Value)) : Board CallKind Value :=
  Board.after client 1 turns

/-- Calls come back with responses to them only, and a request of the server changes nothing. -/
structure Matched (turns : List (Transition.Turn CallKind Value)) : Prop where
  responses : ∀ before turn rest, turns = before ++ turn :: rest → ∀ id reply,
    ((afterTurns (before ++ [turn])).inbox id = some reply ∨
      (id, Exit.answered reply) ∈ (afterTurns (before ++ [turn])).outcomes) →
    (reply.get "id").bind Value.asU64 = some id ∧ reply.get "method" = none
  requests : ∀ before message rest, turns = before ++ .message message :: rest →
    (message.get "method").isSome → afterTurns (before ++ [.message message]) = afterTurns before

/-- No message with a method comes with the number of a call in the map. -/
def KeepsApart (turns : List (Transition.Turn CallKind Value)) : Prop :=
  ∀ before message rest, turns = before ++ .message message :: rest →
    (message.get "method").isSome → (afterTurns before).ended = false →
    ∀ id, (message.get "id").bind Value.asU64 = some id → id ∉ (afterTurns before).pending

theorem route_eq_some {message reply : Value} {id : Nat}
    (routed : route message = some (id, reply)) :
    (message.get "id").bind Value.asU64 = some id ∧ reply = message := by
  rw [route, Option.map_eq_some_iff] at routed
  obtain ⟨own, read, same⟩ := routed
  rw [Prod.mk.injEq] at same
  obtain ⟨rfl, rfl⟩ := same
  exact ⟨read, rfl⟩

/-- A message whose number is not in the map changes nothing. -/
theorem message_idle {before : List (Transition.Turn CallKind Value)} {message : Value}
    (apart : (afterTurns before).ended = false → ∀ id,
      (message.get "id").bind Value.asU64 = some id → id ∉ (afterTurns before).pending) :
    afterTurns (before ++ [.message message]) = afterTurns before := by
  rw [afterTurns, Board.after, run_concat]
  apply Board.step_message_idle
  intro going id reply routed
  exact apart going id (route_eq_some routed).1

/-- A message whose number is in the map takes it out. -/
theorem message_takes {before : List (Transition.Turn CallKind Value)} {message : Value} {id : Nat}
    (going : (afterTurns before).ended = false)
    (read : (message.get "id").bind Value.asU64 = some id)
    (inside : id ∈ (afterTurns before).pending) :
    id ∉ (afterTurns (before ++ [.message message])).pending := by
  have routed : client.route message = some (id, message) := by
    show route message = _
    rw [route, read]
    rfl
  rw [afterTurns, Board.after, run_concat, Board.step_message going routed, Board.deliver,
    if_pos inside]
  exact Finset.notMem_erase id _

/-- Replies of a server are matched to requests only, exactly when no request of the server comes
with a number that is in the map. -/
theorem matched_iff (turns : List (Transition.Turn CallKind Value)) : Matched turns ↔ KeepsApart turns := by
  constructor
  · intro matched before message rest same member going id read inside
    have unchanged := matched.requests before message rest same member
    have out := message_takes going read inside
    rw [unchanged] at out
    exact out inside
  · intro apart
    constructor
    · intro before turn rest same id reply given
      rcases Board.answered_routed client 1 _ given with farewell | ⟨front, message, more, split,
        routed, going, inside⟩
      · cases farewell
      · obtain ⟨read, rfl⟩ := route_eq_some routed
        refine ⟨read, ?_⟩
        have whole : turns = front ++ .message reply :: (more ++ rest) := by
          rw [same, ← List.singleton_append, ← List.append_assoc, split]
          simp
        by_contra member
        exact apart front reply _ whole (Option.isSome_iff_ne_none.mpr member) going id read inside
    · intro before message rest same member
      exact message_idle fun going id read => apart before message rest same member going id read

/-- A request of the server for the number of a hover is taken for the answer to the hover. -/
theorem hover_answered_by_request :
    let ask : Value := .object [("id", .ofNat 1), ("method", .string "workspace/configuration")]
    let turns : List (Transition.Turn CallKind Value) :=
      [.register .request, .written 1, .message ask, .finish 1]
    ¬Matched turns ∧ (afterTurns turns).outcomes = [(1, .answered ask)] ∧
      requestResult "textDocument/hover" (.protocol "") (.answered ask) = .ok .null := by
  intro ask turns
  refine ⟨fun matched => ?_, rfl, rfl⟩
  have response := matched.responses [.register .request, .written 1, .message ask] (.finish 1) []
    rfl 1 ask (.inr (List.mem_singleton.mpr rfl))
  exact Option.some_ne_none _ response.2

end LspEngine

section Lifecycle

variable {Kind Reply : Type}

/-- After every turn a call that was registered runs or came back once, calls that came back are
out of the map, and after the end of the stream a call that waits has its reply. -/
def Lifecycle (client : Client Kind Value Reply) (turns : List (Transition.Turn Kind Value)) : Prop :=
  Throughout (fun before turn =>
    let board := Board.after client 1 (before ++ [turn])
    (∀ id, 1 ≤ id → id < board.nextId →
      (board.calls id).isSome ∧ (board.outcomes.map Prod.fst).count id = 0 ∨
        board.calls id = none ∧ (board.outcomes.map Prod.fst).count id = 1) ∧
    (∀ id ∈ board.outcomes.map Prod.fst, id ∉ board.pending) ∧
    (board.ended = true → ∀ id kind, board.calls id = some (kind, .waiting) →
      (board.inbox id).isSome)) turns

/-- Every turn is one that the client cleans up after. -/
def CleansUp (client : Client Kind Value Reply) (turns : List (Transition.Turn Kind Value)) : Prop :=
  Throughout (fun before turn => Board.Permits client (Board.after client 1 before) turn) turns

theorem lifecycle_iff (client : Client Kind Value Reply) (turns : List (Transition.Turn Kind Value)) :
    Lifecycle client turns ↔ CleansUp client turns := by
  rw [CleansUp, ← Board.settled_throughout]
  constructor
  · intro all before turn rest same
    obtain ⟨once, returned, prompt⟩ := all before turn rest same
    exact ⟨returned, prompt⟩
  · intro all before turn rest same
    have settled := all before turn rest same
    refine ⟨fun id low high => ?_, settled.returned, settled.prompt⟩
    exact (Board.sound_after client 1 (before ++ [turn])).one_exit low high

end Lifecycle

/-- The calls of the three clients have their lifecycle exactly in the runs that the clients clean
up after. -/
theorem lifecycle_clients (lsp : List (Transition.Turn LspEngine.CallKind Value))
    (dap mcp : List (Transition.Turn Unit Value)) :
    (Lifecycle LspEngine.client lsp ↔ CleansUp LspEngine.client lsp) ∧
    (Lifecycle DapClient.client dap ↔ CleansUp DapClient.client dap) ∧
    (Lifecycle McpServerState.client mcp ↔ CleansUp McpServerState.client mcp) :=
  ⟨lifecycle_iff LspEngine.client lsp, lifecycle_iff DapClient.client dap,
    lifecycle_iff McpServerState.client mcp⟩

/-- A call of each client that leaves its number behind, and one that waits in vain. -/
theorem lifecycle_broken :
    ¬Lifecycle LspEngine.client [.register .initialization, .written 1, .timeout 1] ∧
    ¬Lifecycle LspEngine.client [.register .request, .written 1, .endOfStream] ∧
    ¬Lifecycle DapClient.client [.register (), .writeFailed 1] ∧
    ¬Lifecycle McpServerState.client [.endOfStream, .register (), .written 1] := by
  refine ⟨fun all => ?_, fun all => ?_, fun all => ?_, fun all => ?_⟩
  · obtain ⟨-, returned, -⟩ := all [.register .initialization, .written 1] (.timeout 1) [] rfl
    exact returned 1 (by decide) (by decide)
  · obtain ⟨-, -, prompt⟩ := all [.register .request, .written 1] .endOfStream [] rfl
    exact Bool.false_ne_true (prompt rfl 1 .request rfl)
  · obtain ⟨-, returned, -⟩ := all [.register ()] (.writeFailed 1) [] rfl
    exact returned 1 (by decide) (by decide)
  · obtain ⟨-, -, prompt⟩ := all [.endOfStream, .register ()] (.written 1) [] rfl
    exact Bool.false_ne_true (prompt rfl 1 () rfl)

end Daemon
