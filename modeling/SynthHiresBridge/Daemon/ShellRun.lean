import SynthHiresBridge.Daemon.Capability

namespace Daemon

namespace Shell

/-- A process starts with the pipe ends of its parent, and the first one is the leader. -/
structure Process where
  parent : Option Nat
  alive : Bool
  stdout : Bool
  stderr : Bool
  deriving DecidableEq

inductive Stream where
  | stdout
  | stderr
  deriving DecidableEq

def Process.holds (process : Process) : Stream → Bool
  | .stdout => process.alive && process.stdout
  | .stderr => process.alive && process.stderr

def Process.close (process : Process) : Stream → Process
  | .stdout => { process with stdout := false }
  | .stderr => { process with stderr := false }

inductive Signal where
  | term
  | kill
  deriving DecidableEq

/-- The places of `terminate_child` where it waits for something. -/
inductive Stage where
  | signalling
  | grace (since : Nat)
  | escalating
  | reaping
  deriving DecidableEq

/-- How the wait for the child ended. An exit status has a code unless a signal ended the child. -/
inductive Outcome where
  | exited (code : Option Int)
  | cancelled
  | timeout
  | failed (error : String)
  deriving DecidableEq

/-- The timeout still runs while a cancelled child is terminated for the first time. -/
inductive Phase where
  | waiting
  | cancelling (stage : Stage)
  | terminating (stage : Stage) (outcome : Outcome)
  | draining (stream : Stream) (outcome : Outcome)
  | finished (outcome : Outcome)
  deriving DecidableEq

/-- The processes of one group with the future that waits for their leader. -/
structure ShellRun where
  processes : List Process
  status : Option (Option Int)
  reaped : Bool
  groupSignals : List Signal
  stdoutEnded : Bool
  stderrEnded : Bool
  phase : Phase
  timeoutMs : Nat
  now : Nat
  deriving DecidableEq

def clampTimeout (requested : Option Nat) : Nat :=
  Nat.max (Nat.min (requested.getD 30000) (10 * 60 * 1000)) 1000

namespace ShellRun

/-- The leader has both pipes at its start. -/
def spawned (timeoutMs : Option Nat) : ShellRun :=
  ⟨[⟨none, true, true, true⟩], none, false, [], false, false, .waiting, clampTimeout timeoutMs, 0⟩

def start (gate : CapabilityGate) (timeoutMs : Option Nat) : Except String ShellRun :=
  if gate.allows "desktop.shell.execute" then .ok (spawned timeoutMs)
  else .error "desktop.shell.execute"

def ended (run : ShellRun) : Stream → Bool
  | .stdout => run.stdoutEnded
  | .stderr => run.stderrEnded

/-- A process of the group has the write end of a pipe. -/
def held (run : ShellRun) (stream : Stream) : Bool :=
  run.processes.any fun process => process.holds stream

/-- A group that was reaped is not signalled any more, since the child has no id then. -/
def signalGroup (run : ShellRun) (signal : Signal) : ShellRun :=
  if run.reaped then run else { run with groupSignals := run.groupSignals ++ [signal] }

def enter (run : ShellRun) (phase : Phase) : ShellRun :=
  { run with phase }

/-- The child is terminated before the pumps are drained, unless it has exited by itself. -/
def select (run : ShellRun) : Outcome → ShellRun
  | .exited code => run.enter (.draining .stdout (.exited code))
  | outcome => run.enter (.terminating .signalling outcome)

/-- What follows when a call of `terminate_child` is over. -/
def terminated (run : ShellRun) : Phase → ShellRun
  | .cancelling _ => run.select .cancelled
  | .terminating _ outcome => run.enter (.draining .stdout outcome)
  | _ => run

/-- `terminate_child` is at the same stage whether it runs inside the timeout or after it. -/
def stage : Phase → Option Stage
  | .cancelling stage => some stage
  | .terminating stage _ => some stage
  | _ => none

def enterStage (run : ShellRun) (stage : Stage) : ShellRun :=
  match run.phase with
  | .cancelling _ => run.enter (.cancelling stage)
  | .terminating _ outcome => run.enter (.terminating stage outcome)
  | _ => run

/-- The wait for the child gives the status of a leader that has exited. -/
def collect (run : ShellRun) (code : Option Int) : ShellRun :=
  let collected := { run with reaped := true }
  match run.phase with
  | .waiting => collected.select (.exited code)
  | phase =>
      match stage phase with
      | some (.grace _) | some .reaping => collected.terminated phase
      | _ => run

def waitFails (run : ShellRun) (error : String) : ShellRun :=
  match run.phase with
  | .waiting => run.select (.failed error)
  | phase =>
      match stage phase with
      | some (.grace _) | some .reaping => run.terminated phase
      | _ => run

/-- The steps of `terminate_child` that do not wait for the child. -/
def proceed (run : ShellRun) : ShellRun :=
  match stage run.phase with
  | some .signalling => (run.signalGroup .term).enterStage (.grace run.now)
  | some (.grace since) => if since + 2000 ≤ run.now then run.enterStage .escalating else run
  | some .escalating => (run.signalGroup .kill).enterStage .reaping
  | _ => run

def timesOut (run : ShellRun) : ShellRun :=
  if run.timeoutMs ≤ run.now then
    match run.phase with
    | .waiting | .cancelling _ => run.select .timeout
    | _ => run
  else run

/-- A pump that has ended is joined, first the one of stdout and then the one of stderr. -/
def join (run : ShellRun) : ShellRun :=
  match run.phase with
  | .draining .stdout outcome =>
      if run.stdoutEnded then run.enter (.draining .stderr outcome) else run
  | .draining .stderr outcome => if run.stderrEnded then run.enter (.finished outcome) else run
  | _ => run

def endPump (run : ShellRun) : Stream → ShellRun
  | .stdout => { run with stdoutEnded := true }
  | .stderr => { run with stderrEnded := true }

/-- A pump may also stop early, at a line that is not text or when nobody takes its chunks. -/
inductive Event where
  | passes (ms : Nat)
  | fork (parent : Nat)
  | close (pid : Nat) (stream : Stream)
  | exit (pid : Nat) (code : Option Int)
  | pumpEnds (stream : Stream)
  | pumpStops (stream : Stream)
  | waitReturns
  | waitFails (error : String)
  | cancelled
  | timesOut
  | proceeds
  | joins

def living (run : ShellRun) (pid : Nat) : Option Process :=
  run.processes[pid]?.filter Process.alive

def step (run : ShellRun) : Event → ShellRun
  | .passes ms => { run with now := run.now + ms }
  | .fork parent =>
      match run.living parent with
      | none => run
      | some process =>
          { run with processes := run.processes ++ [{ process with parent := some parent }] }
  | .close pid stream =>
      match run.living pid with
      | none => run
      | some process => { run with processes := run.processes.set pid (process.close stream) }
  | .exit pid code =>
      match run.living pid with
      | none => run
      | some process =>
          { run with
            processes := run.processes.set pid { process with alive := false }
            status := if pid = 0 then some code else run.status }
  | .pumpEnds stream => if run.held stream then run else run.endPump stream
  | .pumpStops stream => run.endPump stream
  | .waitReturns =>
      match run.status with
      | none => run
      | some code => run.collect code
  | .waitFails error => run.waitFails error
  | .cancelled => if run.phase = .waiting then run.enter (.cancelling .signalling) else run
  | .timesOut => run.timesOut
  | .proceeds => run.proceed
  | .joins => run.join

end ShellRun

end Shell

end Daemon
