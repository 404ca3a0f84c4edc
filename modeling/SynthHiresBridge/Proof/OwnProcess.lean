import SynthHiresBridge.Daemon.ProcessControl

namespace Daemon

namespace ProcessControl

open Posix

/-- The rows of a table that a query finds. -/
def found (system : System) (query : String) (stdout : List UInt8) : List ProcessInfo :=
  ((Text.lines (Text.lossy stdout)).filterMap parseProcessLine).filter fun process =>
    query = "" ∨ Text.contains (searchable system process) query

/-- The numbers that a request names: its own number, or those of the first rows with its name. -/
inductive Chosen (system : System) (request : ProcessKillRequest) : UInt32 → Prop
  | pid (pid : UInt32) (given : request.pid = some pid) (nameless : request.name = none)
      (other : pid.toNat ≠ system.daemon.pid) : Chosen system request pid
  | name (text name : String) (stdout : List UInt8) (process : ProcessInfo)
      (numberless : request.pid = none) (given : request.name = some text)
      (small : name = system.lowercase (Text.trim text)) (filled : name ≠ "")
      (short : name.utf8ByteSize ≤ 255) (printed : system.ps = .printed stdout)
      (first : process ∈ (((found system (system.lowercase name) stdout).take maxProcessLimit).filter
        fun process => system.lowercase process.name = name ∧
          process.pid.toNat ≠ system.daemon.pid).take 32) : Chosen system request process.pid

/-- Whatever becomes of the commands, no signal of a request reaches the daemon. -/
def SparesDaemon (system : System) (command : KillCommand) (request : ProcessKillRequest) : Prop :=
  ∀ helper, ∀ pid ∈ (killProcess system helper request).sent, command.Spares system.daemon pid

theorem Chosen.other {system : System} {request : ProcessKillRequest} {pid : UInt32}
    (chosen : Chosen system request pid) : pid.toNat ≠ system.daemon.pid := by
  cases chosen with
  | pid _ _ _ other => exact other
  | name _ _ _ process _ _ _ _ _ _ first =>
      have kept := (List.mem_filter.mp (List.mem_of_mem_take first)).2
      exact (decide_eq_true_iff.mp kept).2

section Targets

variable {system : System}

theorem collect_eq (query : String) {limit : Nat} (lines : List String) {processes : List ProcessInfo}
    (room : processes.length < limit) : collect system query limit processes lines =
      processes ++ ((lines.filterMap parseProcessLine).filter fun process =>
        query = "" ∨ Text.contains (searchable system process) query).take
          (limit - processes.length) := by
  induction lines generalizing processes with
  | nil => simp [collect]
  | cons line rest ih =>
      rw [collect]
      cases parsed : parseProcessLine line with
      | none =>
          rw [List.filterMap_cons_none parsed]
          exact ih room
      | some process =>
          rw [List.filterMap_cons_some parsed]
          dsimp only
          by_cases hidden : query ≠ "" ∧ ¬ Text.contains (searchable system process) query
          · rw [if_pos hidden, List.filter_cons_of_neg]
            · exact ih room
            · rw [decide_eq_true_iff, not_or]
              exact hidden
          · have shown : query = "" ∨ Text.contains (searchable system process) query := by
              by_contra away
              exact hidden (not_or.mp away)
            have next : limit - processes.length = (limit - (processes.length + 1)) + 1 := by omega
            rw [if_neg hidden, List.filter_cons_of_pos (by rwa [decide_eq_true_iff]), next,
              List.take_succ_cons, List.length_append, List.length_singleton]
            by_cases full : processes.length + 1 ≥ limit
            · have none : limit - (processes.length + 1) = 0 := by omega
              rw [if_pos full, none, List.take_zero]
            · have room : (processes ++ [process]).length < limit := by
                rw [List.length_append]
                exact Nat.lt_of_not_le full
              rw [if_neg full, ih room, List.length_append, List.append_assoc]
              rfl

theorem listProcesses_printed {name : String} {stdout : List UInt8}
    (printed : system.ps = .printed stdout) :
    listProcesses system ⟨some name, some maxProcessLimit⟩ =
      let rows := (found system (system.lowercase name) stdout).take maxProcessLimit
      .ok ⟨rows, decide (rows.length ≥ maxProcessLimit)⟩ := by
  have limit : Nat.min (Nat.max maxProcessLimit 1) maxProcessLimit = maxProcessLimit := rfl
  have collected : collect system (system.lowercase name) maxProcessLimit []
      (Text.lines (Text.lossy stdout)) =
        (found system (system.lowercase name) stdout).take maxProcessLimit :=
    collect_eq _ _ (by decide)
  simp only [listProcesses, printed, Option.getD_some, limit, collected]

theorem numbered_targets (own : UInt32) : targets system ⟨some own, none⟩ =
    if own.toNat = system.daemon.pid then
      .error (.protocol "refusing to terminate the daemon itself")
    else .ok [own] := by
  rw [targets, if_neg (by simp)]

theorem named_targets {text : String} {stdout : List UInt8}
    (filled : system.lowercase (Text.trim text) ≠ "")
    (short : (system.lowercase (Text.trim text)).utf8ByteSize ≤ 255)
    (printed : system.ps = .printed stdout) : targets system ⟨none, some text⟩ =
      .ok ((((found system (system.lowercase (system.lowercase (Text.trim text))) stdout).take
        maxProcessLimit).filter fun process =>
          system.lowercase process.name = system.lowercase (Text.trim text) ∧
            process.pid.toNat ≠ system.daemon.pid).take 32 |>.map ProcessInfo.pid) := by
  have valid : ¬ (system.lowercase (Text.trim text) = "" ∨
      (system.lowercase (Text.trim text)).utf8ByteSize > 255) :=
    not_or.mpr ⟨filled, Nat.not_lt.mpr short⟩
  rw [targets, if_neg (by simp), Option.getD_some, if_neg valid, listProcesses_printed printed]
  exact congrArg Except.ok List.map_take.symm

/-- A name is refused if it is empty or long, and if no table was printed. -/
theorem named_rejected {text : String} (rejected : (system.lowercase (Text.trim text) = "" ∨
    (system.lowercase (Text.trim text)).utf8ByteSize > 255) ∨ ∀ stdout, system.ps ≠ .printed stdout) :
    ∃ error, targets system ⟨none, some text⟩ = .error error := by
  rw [targets, if_neg (by simp), Option.getD_some]
  by_cases invalid : system.lowercase (Text.trim text) = "" ∨
      (system.lowercase (Text.trim text)).utf8ByteSize > 255
  · exact ⟨_, if_pos invalid⟩
  · rw [if_neg invalid, listProcesses]
    cases listing : system.ps with
    | unreachable error => exact ⟨_, rfl⟩
    | failed status => exact ⟨_, rfl⟩
    | printed stdout => exact absurd listing (rejected.resolve_left invalid stdout)

theorem targets_of_chosen {request : ProcessKillRequest} {pid : UInt32}
    (chosen : Chosen system request pid) : ∃ pids, targets system request = .ok pids ∧ pid ∈ pids := by
  obtain ⟨number, named⟩ := request
  cases chosen with
  | pid _ given nameless other =>
      obtain rfl : number = some pid := given
      obtain rfl : named = none := nameless
      refine ⟨[pid], ?_, List.mem_singleton_self pid⟩
      rw [numbered_targets, if_neg other]
  | name text name stdout process numberless given small filled short printed first =>
      obtain rfl : number = none := numberless
      obtain rfl : named = some text := given
      subst small
      exact ⟨_, named_targets filled short printed, List.mem_map_of_mem first⟩

theorem chosen_of_targets {request : ProcessKillRequest} {pids : List UInt32}
    (targeted : targets system request = .ok pids) : ∀ pid ∈ pids, Chosen system request pid := by
  obtain ⟨number, named⟩ := request
  cases number with
  | some own =>
      cases named with
      | some text =>
          rw [targets, if_pos (by simp)] at targeted
          cases targeted
      | none =>
          rw [numbered_targets] at targeted
          by_cases daemon : own.toNat = system.daemon.pid
          · rw [if_pos daemon] at targeted
            cases targeted
          · rw [if_neg daemon] at targeted
            obtain rfl := Except.ok.inj targeted
            intro pid member
            obtain rfl := List.mem_singleton.mp member
            exact .pid pid rfl rfl daemon
  | none =>
      cases named with
      | none =>
          rw [targets, if_pos (by simp)] at targeted
          cases targeted
      | some text =>
          by_cases rejected : (system.lowercase (Text.trim text) = "" ∨
              (system.lowercase (Text.trim text)).utf8ByteSize > 255) ∨
                ∀ stdout, system.ps ≠ .printed stdout
          · obtain ⟨error, failed⟩ := named_rejected rejected
            rw [failed] at targeted
            cases targeted
          · obtain ⟨valid, listed⟩ := not_or.mp rejected
            obtain ⟨filled, long⟩ := not_or.mp valid
            have short := Nat.not_lt.mp long
            obtain ⟨stdout, listing⟩ := not_forall_not.mp listed
            rw [named_targets filled short listing] at targeted
            obtain rfl := Except.ok.inj targeted
            intro pid member
            obtain ⟨process, first, rfl⟩ := List.mem_map.mp member
            exact .name text _ stdout process rfl rfl rfl filled short listing first

end Targets

section Signals

theorem signalAll_sent (helper : Helper) (pids : List UInt32) (sent killed : List UInt32) :
    (signalAll helper sent killed pids).sent <+: sent ++ pids := by
  induction pids generalizing sent killed with
  | nil => simp [signalAll]
  | cons pid rest ih =>
      rw [signalAll]
      cases helper sent pid with
      | error error => exact List.prefix_append sent _
      | ok success => simpa using ih (sent ++ [pid]) _

/-- A command that can always be run. -/
def willing : Helper := fun _ _ => .ok true

theorem signalAll_willing (pids sent killed : List UInt32) :
    (signalAll willing sent killed pids).sent = sent ++ pids := by
  induction pids generalizing sent killed with
  | nil => simp [signalAll]
  | cons pid rest ih =>
      have more := ih (sent ++ [pid]) (killed ++ [pid])
      rw [List.append_assoc] at more
      exact more

end Signals

/-- A request never signals the daemon if and only if no number that it chooses stands for a group
that the daemon is in or for every process. -/
theorem spares_daemon_iff (system : System) (command : KillCommand) (request : ProcessKillRequest) :
    SparesDaemon system command request ↔
      ∀ pid, Chosen system request pid → command.Plain system.daemon pid := by
  constructor
  · intro spares pid chosen
    obtain ⟨pids, targeted, member⟩ := targets_of_chosen chosen
    have sent : (killProcess system willing request).sent = pids := by
      rw [killProcess, targeted]
      exact signalAll_willing pids [] []
    exact (spares_iff (chosen.other)).mp (spares willing pid (by rwa [sent]))
  · intro plain helper pid member
    rw [killProcess] at member
    cases targeted : targets system request with
    | error error =>
        rw [targeted] at member
        cases member
    | ok pids =>
        rw [targeted] at member
        have inside := (signalAll_sent helper pids [] []).subset member
        have chosen := chosen_of_targets targeted pid inside
        exact (spares_iff chosen.other).mpr (plain pid chosen)

/-- A daemon that leads its group, on a machine whose table has one other process. -/
def leader : System where
  daemon := ⟨4711, 4711, by decide, by decide⟩
  lowercase text := text
  ps := .printed (Text.encode "1 init /sbin/init\n")

/-- A command that refuses the numbers that do not fit. -/
def strictKill : KillCommand where
  read pid := if pid.toNat < 2 ^ 31 then some pid.toNat else none
  small _ small := if_pos small
  large _ large := .inl (if_neg (Nat.not_lt.mpr large))

/-- The number zero is not that of the daemon, and it stands for the daemon's group. -/
theorem zero_reaches_daemon : ¬ SparesDaemon leader strictKill ⟨some 0, none⟩ := by
  intro spares
  have sent : (0 : UInt32) ∈ (killProcess leader willing ⟨some 0, none⟩).sent := by
    decide
  exact not_spares_zero (spares willing 0 sent)

end ProcessControl

end Daemon
