import SynthHiresBridge.Daemon.Engines

namespace Daemon

open Json Posix

/-- An operation that is read by its tag stands in the parameters under its own tag. -/
theorem readOp_of_bind {Op : Type} (tag : Op → String) (build : String × Value → Option Op)
    (own : ∀ name rest op, build (name, rest) = some op → name = tag op) (params : Value) (op : Op)
    (parsed : (readOp params).bind build = some op) :
    ∃ rest, readOp params = some (tag op, rest) := by
  obtain ⟨⟨name, rest⟩, read, built⟩ := Option.bind_eq_some_iff.mp parsed
  exact ⟨rest, own name rest op built ▸ read⟩

namespace MemoryOp

def tag : MemoryOp → String
  | .remember .. => "remember"
  | .recall .. => "recall"
  | .forget .. => "forget"
  | .reflect .. => "reflect"
  | .stats .. => "stats"

/-- An operation is read under its own tag. -/
theorem readOp_of_ofParams (params : Value) (op : MemoryOp) (parsed : ofParams params = some op) :
    ∃ rest, readOp params = some (op.tag, rest) := by
  apply readOp_of_bind tag _ _ params op parsed
  clear op parsed
  intro name rest op parsed
  simp only at parsed
  split at parsed
  all_goals try split at parsed
  all_goals
    simp only [Option.bind_eq_bind, Option.bind_eq_some_iff, Option.pure_def,
      Option.some.injEq, reduceCtorEq] at parsed
  all_goals grind [tag]

end MemoryOp

namespace ProcOp

def tag : ProcOp → String
  | .start .. => "start"
  | .signal .. => "signal"
  | .logs .. => "logs"
  | .wait .. => "wait"
  | .list => "list"
  | .probe .. => "probe"

theorem readOp_of_ofParams (parseUuid : String → Option Uuid) (params : Value) (op : ProcOp)
    (parsed : ofParams parseUuid params = some op) :
    ∃ rest, readOp params = some (op.tag, rest) := by
  apply readOp_of_bind tag _ _ params op parsed
  clear op parsed
  intro name rest op parsed
  simp only at parsed
  split at parsed
  all_goals try split at parsed
  all_goals
    simp only [Option.bind_eq_bind, Option.bind_eq_some_iff, Option.pure_def,
      Option.some.injEq, reduceCtorEq] at parsed
  all_goals grind [tag]

end ProcOp

namespace DapOp

def tag : DapOp → String
  | .start .. => "start"
  | .setBreakpoints .. => "setBreakpoints"
  | .stackTrace .. => "stackTrace"
  | .variables .. => "variables"
  | .continue .. => "continue"
  | .step .. => "step"
  | .pause .. => "pause"
  | .eval .. => "eval"
  | .setVariable .. => "setVariable"
  | .source .. => "source"
  | .sessions => "sessions"
  | .threads .. => "threads"
  | .events .. => "events"
  | .stop .. => "stop"

theorem readOp_of_ofParams (params : Value) (op : DapOp) (parsed : ofParams params = some op) :
    ∃ rest, readOp params = some (op.tag, rest) := by
  apply readOp_of_bind tag _ _ params op parsed
  clear op parsed
  intro name rest op parsed
  simp only at parsed
  split at parsed
  all_goals try split at parsed
  all_goals
    simp only [Option.bind_eq_bind, Option.bind_eq_some_iff, Option.map_eq_some_iff,
      Option.pure_def, Option.some.injEq, reduceCtorEq] at parsed
  all_goals grind [tag]

end DapOp

namespace McpOp

def tag : McpOp → String
  | .status => "status"
  | .listTools .. => "list_tools"
  | .call .. => "call"
  | .stop .. => "stop"

theorem readOp_of_ofParams (params : Value) (op : McpOp) (parsed : ofParams params = some op) :
    ∃ rest, readOp params = some (op.tag, rest) := by
  apply readOp_of_bind tag _ _ params op parsed
  clear op parsed
  intro name rest op parsed
  simp only at parsed
  split at parsed
  all_goals try split at parsed
  all_goals
    simp only [Option.bind_eq_bind, Option.bind_eq_some_iff, Option.pure_def,
      Option.some.injEq, reduceCtorEq] at parsed
  all_goals grind [tag]

end McpOp

/-- The scope that a memory operation itself requires. -/
def MemoryOp.scope : MemoryOp → String
  | .remember .. | .forget .. | .reflect .. => "desktop.fs.write"
  | .recall .. | .stats .. => "desktop.fs.read"

def ProcOp.scope : ProcOp → String
  | .signal .. => "desktop.process.kill"
  | .probe .. => "desktop.network.fetch"
  | .start .. => "desktop.shell.execute"
  | _ => "desktop.fs.read"

/-- Inspecting a debuggee requires no scope of its own. -/
def DapOp.scope : DapOp → Option String
  | .start .. | .eval .. | .continue .. | .step .. | .pause .. => some "desktop.shell.execute"
  | _ => none

/-- The status of the servers requires no scope of its own. -/
def McpOp.scope : McpOp → Option String
  | .stop .. => some "desktop.process.kill"
  | .status => none
  | _ => some "desktop.shell.execute"

namespace EngineOp

/-- The scope that an operation itself requires. -/
def scope : EngineOp → Option String
  | .memory op => some op.scope
  | .proc op => some op.scope
  | .pty _ => some "desktop.shell.execute"
  | .dap op => op.scope
  | .mcp op => op.scope

end EngineOp

/-- Where the parameters are an object, the check of the scope and the engine read one tag. -/
theorem ActionRequestFrame.op_of_object (request : ActionRequestFrame) (name : String) (rest : Value)
    (object : request.params.isObject = true) (read : readOp request.params = some (name, rest)) :
    request.op = some name := by
  unfold ActionRequestFrame.op
  unfold readOp Value.tagged at read
  split at read
  · rename_i entries params
    simp only [Option.map_eq_some_iff, Prod.mk.injEq] at read
    obtain ⟨_, read, rfl, -⟩ := read
    simpa [params, Value.get] using read
  · simp_all [Value.isObject]
  · simp_all [Value.isObject]

/-- Where the parameters are no object, the check of the scope reads no tag. -/
theorem ActionRequestFrame.op_of_other (request : ActionRequestFrame)
    (other : request.params.isObject = false) : request.op = none := by
  unfold ActionRequestFrame.op
  cases params : request.params <;> simp_all [Value.get, Value.isObject]

/-- The tag of an operation belongs to the tier of its capability, and the tags that need more than
the weakest scope of their family stand in an object. -/
def Tiered (request : ActionRequestFrame) : EngineOp → Prop
  | .memory op =>
      if request.capability = "desktop.memory.recall" ∨ request.capability = "desktop.memory.stats"
      then op.tag = "recall" ∨ op.tag = "stats"
      else op.tag = "remember" ∨ op.tag = "forget" ∨ op.tag = "reflect"
  | .proc op => request.params.isObject = true ∨ op.tag ∉ ["signal", "probe", "start"]
  | .pty _ => True
  | .dap op => request.params.isObject = true ∨
      op.tag ∉ ["start", "eval", "continue", "step", "pause"]
  | .mcp op => request.params.isObject = true ∨ op.tag ≠ "stop"

theorem MemoryOp.requiredScope_eq (request : ActionRequestFrame)
    (own : request.capability ∈ ["desktop.memory.remember", "desktop.memory.recall",
      "desktop.memory.forget", "desktop.memory.reflect", "desktop.memory.stats"]) :
    requiredScope request =
      if request.capability = "desktop.memory.recall" ∨ request.capability = "desktop.memory.stats"
      then "desktop.fs.read" else "desktop.fs.write" := by
  simp only [List.mem_cons, List.not_mem_nil, or_false] at own
  rw [requiredScope]
  rcases own with own | own | own | own | own
  all_goals
    rw [own]
    rfl

/-- The check of a memory operation knows the capability only, so the two agree on the tiers. -/
theorem MemoryOp.scope_iff (request : ActionRequestFrame) (op : MemoryOp)
    (own : request.capability ∈ ["desktop.memory.remember", "desktop.memory.recall",
      "desktop.memory.forget", "desktop.memory.reflect", "desktop.memory.stats"]) :
    (∀ scope, some op.scope = some scope → scope = requiredScope request) ↔
      Tiered request (.memory op) := by
  rw [requiredScope_eq request own, Tiered]
  split
  all_goals cases op <;> simp [scope, tag]

/-- A check of the tag in the request reads the scope of the operation from an object, and from
anything else the scope of a request without a tag. -/
theorem tagged_scope_iff (request : ActionRequestFrame) (scopeOf : Option String → String)
    (checked : requiredScope request = scopeOf request.op) (tag : String) (rest : Value)
    (read : readOp request.params = some (tag, rest)) (needed : Option String)
    (own : ∀ scope, needed = some scope → scope = scopeOf (some tag)) :
    (∀ scope, needed = some scope → scope = requiredScope request) ↔
      request.params.isObject = true ∨ ∀ scope, needed = some scope → scope = scopeOf none := by
  rw [checked]
  cases object : request.params.isObject with
  | true =>
      rw [request.op_of_object tag rest object read]
      exact iff_of_true own (.inl rfl)
  | false =>
      rw [request.op_of_other object]
      simp

/-- The scope that the client checks for a process operation of this tag. -/
def ProcOp.scopeOf : Option String → String
  | some "signal" => "desktop.process.kill"
  | some "probe" => "desktop.network.fetch"
  | some "start" => "desktop.shell.execute"
  | _ => "desktop.fs.read"

theorem ProcOp.requiredScope_eq (request : ActionRequestFrame)
    (own : request.capability = "desktop.proc.op") :
    requiredScope request = scopeOf request.op := by
  rw [requiredScope, own]
  rfl

theorem PtyOp.requiredScope_eq (request : ActionRequestFrame)
    (own : request.capability = "desktop.pty.op") :
    requiredScope request = "desktop.shell.execute" := by
  rw [requiredScope, own]
  rfl

def DapOp.scopeOf : Option String → String
  | some "start" | some "eval" | some "continue" | some "step" | some "pause" =>
      "desktop.shell.execute"
  | _ => "desktop.fs.read"

theorem DapOp.requiredScope_eq (request : ActionRequestFrame)
    (own : request.capability = "desktop.debug.op") :
    requiredScope request = scopeOf request.op := by
  rw [requiredScope, own]
  rfl

def McpOp.scopeOf : Option String → String
  | some "status" => "desktop.fs.read"
  | some "stop" => "desktop.process.kill"
  | _ => "desktop.shell.execute"

theorem McpOp.requiredScope_eq (request : ActionRequestFrame)
    (own : request.capability = "desktop.mcp.op") :
    requiredScope request = scopeOf request.op := by
  rw [requiredScope, own]
  rfl

theorem ProcOp.scope_iff (parseUuid : String → Option Uuid) (request : ActionRequestFrame)
    (op : ProcOp) (own : request.capability = "desktop.proc.op")
    (parsed : ofParams parseUuid request.params = some op) :
    (∀ scope, some op.scope = some scope → scope = requiredScope request) ↔
      request.params.isObject = true ∨ op.tag ∉ ["signal", "probe", "start"] := by
  obtain ⟨rest, read⟩ := readOp_of_ofParams parseUuid request.params op parsed
  rw [tagged_scope_iff request scopeOf (requiredScope_eq request own) op.tag rest read _
    (by cases op <;> simp [scope, tag, scopeOf])]
  apply or_congr_right
  cases op <;> simp [scope, tag, scopeOf]

theorem DapOp.scope_iff (request : ActionRequestFrame) (op : DapOp)
    (own : request.capability = "desktop.debug.op") (parsed : ofParams request.params = some op) :
    (∀ scope, op.scope = some scope → scope = requiredScope request) ↔
      request.params.isObject = true ∨
        op.tag ∉ ["start", "eval", "continue", "step", "pause"] := by
  obtain ⟨rest, read⟩ := readOp_of_ofParams request.params op parsed
  rw [tagged_scope_iff request scopeOf (requiredScope_eq request own) op.tag rest read _
    (by cases op <;> simp [scope, tag, scopeOf])]
  apply or_congr_right
  cases op <;> simp [scope, tag, scopeOf]

theorem McpOp.scope_iff (request : ActionRequestFrame) (op : McpOp)
    (own : request.capability = "desktop.mcp.op") (parsed : ofParams request.params = some op) :
    (∀ scope, op.scope = some scope → scope = requiredScope request) ↔
      request.params.isObject = true ∨ op.tag ≠ "stop" := by
  obtain ⟨rest, read⟩ := readOp_of_ofParams request.params op parsed
  rw [tagged_scope_iff request scopeOf (requiredScope_eq request own) op.tag rest read _
    (by cases op <;> simp [scope, tag, scopeOf])]
  apply or_congr_right
  cases op <;> simp [scope, tag, scopeOf]

namespace EngineOp

/-- The scope that the client checks is the one the operation requires exactly when the operation
is in its tier. -/
theorem scope_iff (parseUuid : String → Option Uuid) (request : ActionRequestFrame)
    (op : EngineOp) (parsed : ofRequest parseUuid request = some op) :
    (∀ scope, op.scope = some scope → scope = requiredScope request) ↔ Tiered request op := by
  unfold ofRequest at parsed
  split at parsed
  case h_1 own | h_2 own | h_3 own | h_4 own | h_5 own =>
    obtain ⟨op, -, rfl⟩ := Option.map_eq_some_iff.mp parsed
    exact op.scope_iff request (by simp [own])
  case h_6 own =>
    obtain ⟨op, read, rfl⟩ := Option.map_eq_some_iff.mp parsed
    exact op.scope_iff parseUuid request own read
  case h_7 own =>
    obtain ⟨op, -, rfl⟩ := Option.map_eq_some_iff.mp parsed
    simp [scope, Tiered, PtyOp.requiredScope_eq request own]
  case h_8 own =>
    obtain ⟨op, read, rfl⟩ := Option.map_eq_some_iff.mp parsed
    exact op.scope_iff request own read
  case h_9 own =>
    obtain ⟨op, read, rfl⟩ := Option.map_eq_some_iff.mp parsed
    exact op.scope_iff request own read
  case h_10 => cases parsed

end EngineOp

namespace WsClient

/-- The client checks a scope of the gate before every operation. -/
theorem refusal_eq_none_iff (client : WsClient) (parseUuid : String → Option Uuid)
    (request : ActionRequestFrame) (op : EngineOp)
    (parsed : EngineOp.ofRequest parseUuid request = some op) :
    client.refusal request = none ↔ client.gate.allows (requiredScope request) = true := by
  have checks : requiredScope request ≠ "self" ∧ request.capability ≠ "desktop.shell.execute" ∧
      request.capability ≠ "desktop.process.kill" := by
    unfold EngineOp.ofRequest at parsed
    split at parsed
    case h_1 own | h_2 own | h_3 own | h_4 own | h_5 own =>
      rw [MemoryOp.requiredScope_eq request (by simp [own]), own]
      decide
    case h_6 own =>
      rw [ProcOp.requiredScope_eq request own, own]
      refine ⟨?_, by decide, by decide⟩
      unfold ProcOp.scopeOf
      split <;> decide
    case h_7 own =>
      rw [PtyOp.requiredScope_eq request own, own]
      decide
    case h_8 own =>
      rw [DapOp.requiredScope_eq request own, own]
      refine ⟨?_, by decide, by decide⟩
      unfold DapOp.scopeOf
      split <;> decide
    case h_9 own =>
      rw [McpOp.requiredScope_eq request own, own]
      refine ⟨?_, by decide, by decide⟩
      unfold McpOp.scopeOf
      split <;> decide
    case h_10 => cases parsed
  simp [refusal, checks.1, checks.2.1, checks.2.2]

/-- An operation reaches its engine exactly when the gate grants the scope the client checks. -/
theorem executes_iff (client : WsClient) (parseUuid : String → Option Uuid)
    (request : ActionRequestFrame) (op : EngineOp)
    (parsed : EngineOp.ofRequest parseUuid request = some op) :
    client.executes parseUuid request = some op ↔
      client.gate.allows (requiredScope request) = true := by
  rw [← client.refusal_eq_none_iff parseUuid request op parsed, executes]
  cases client.refusal request <;> simp [parsed]

/-- An operation never reaches its engine under a weaker scope exactly when it is in the tier of its
capability. -/
theorem executes_scoped_iff (parseUuid : String → Option Uuid) (request : ActionRequestFrame)
    (op : EngineOp) (parsed : EngineOp.ofRequest parseUuid request = some op) :
    (∀ client : WsClient, client.executes parseUuid request = some op →
      ∀ scope, op.scope = some scope → client.gate.allows scope = true) ↔ Tiered request op := by
  rw [← op.scope_iff parseUuid request parsed]
  constructor
  · intro stays scope needed
    have granted := stays (.start (.ofScopes ⟨[requiredScope request], []⟩) none .empty)
      ((executes_iff _ parseUuid request op parsed).mpr (by
        simp [start, CapabilityGate.ofScopes, ScopeSnapshot.ofScopes, CapabilityGate.allows]))
      scope needed
    have named : requiredScope request = scope := by
      simpa [start, CapabilityGate.ofScopes, ScopeSnapshot.ofScopes, CapabilityGate.allows]
        using granted
    exact named.symm
  · intro same client reached scope needed
    rw [same scope needed]
    exact (client.executes_iff parseUuid request op parsed).mp reached

/-- A request for a recall whose parameters hold an operation that forgets. -/
def forgettingRecall : ActionRequestFrame :=
  ⟨1, "1", "desktop.memory.recall", .object [("op", .string "forget"), ("project", .string "p")],
    none, false⟩

/-- A recall under its own name never runs without the scope of a read. -/
theorem executes_scoped_recall : ∃ op,
    EngineOp.ofRequest (fun _ => none) ⟨1, "1", "desktop.memory.recall",
      .object [("op", .string "recall"), ("project", .string "p")], none, false⟩ = some op ∧
    ∀ client : WsClient, client.executes (fun _ => none) ⟨1, "1", "desktop.memory.recall",
      .object [("op", .string "recall"), ("project", .string "p")], none, false⟩ = some op →
      ∀ scope, op.scope = some scope → client.gate.allows scope = true := by
  refine ⟨.memory (.recall "p" none none), rfl, ?_⟩
  exact (executes_scoped_iff (fun _ => none) _ (.memory (.recall "p" none none)) rfl).mpr
    (.inl rfl)

/-- Under the scope of a read alone a recall reaches the engine with an operation that forgets. -/
theorem executes_unscoped :
    ¬ ∀ (client : WsClient) (parseUuid : String → Option Uuid) (request : ActionRequestFrame)
      (op : EngineOp), client.executes parseUuid request = some op →
      ∀ scope, op.scope = some scope → client.gate.allows scope = true := by
  intro claim
  have granted := claim (.start (.ofScopes ⟨["desktop.fs.read"], []⟩) none .empty) (fun _ => none)
    forgettingRecall (.memory (.forget "p" none false)) (by rfl) "desktop.fs.write" rfl
  exact absurd granted (by decide)

end WsClient

end Daemon
