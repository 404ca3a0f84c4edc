import SynthHiresBridge.Daemon.ShellRun
import SynthHiresBridge.Data.Lines

namespace Daemon.Shell

def maxOutputBytes : Nat := 4 * 1024 * 1024

def streamFlushBytes : Nat := 8 * 1024

def truncationMarker : String := "\n…[synthhires: output truncated at 4 MiB]\n"

/-- A buffer of one stream with its flag for data that was left out. -/
structure Accumulator where
  text : String
  dropped : Bool
  deriving DecidableEq

/-- The cut is found by counting as many characters as there are bytes left. -/
def pushCapped (buffer : Accumulator) (data : String) : Accumulator :=
  if buffer.text.utf8ByteSize ≥ maxOutputBytes then { buffer with dropped := true }
  else if buffer.text.utf8ByteSize + data.utf8ByteSize > maxOutputBytes then
    let space := maxOutputBytes - buffer.text.utf8ByteSize
    ⟨buffer.text ++ String.ofList (data.toList.take space) ++ truncationMarker, true⟩
  else { buffer with text := buffer.text ++ data }

/-- A pump with the chunks that it has sent and the count of its sends. -/
structure Pump where
  buffer : Accumulator
  pending : String
  streamStopped : Bool
  chunks : List String
  sends : Nat

namespace Pump

def start : Pump := ⟨⟨"", false⟩, "", false, [], 0⟩

/-- The receiver gets a chunk when it is still there at that send. -/
def send (receiver : Nat → Bool) (pump : Pump) (data : String) : Pump :=
  { pump with
    chunks := if receiver pump.sends then pump.chunks ++ [data] else pump.chunks
    sends := pump.sends + 1 }

def flush (receiver : Nat → Bool) (pump : Pump) : Pump :=
  if pump.pending = "" then pump
  else { pump.send receiver pump.pending with pending := "" }

/-- What was batched goes out before the mark, and after the mark there are no more chunks. -/
def stopStream (receiver : Nat → Bool) (pump : Pump) : Pump :=
  if pump.streamStopped then pump
  else { (pump.flush receiver).send receiver truncationMarker with streamStopped := true }

/-- A line is kept and batched. The loop goes on unless a batch finds no receiver. -/
def takeLine (receiver : Nat → Bool) (pump : Pump) (line : String) : Pump × Bool :=
  let data := line ++ "\n"
  let kept := { pump with buffer := pushCapped pump.buffer data }
  if kept.buffer.dropped then (kept.stopStream receiver, true)
  else
    let batched := { kept with pending := kept.pending ++ data }
    if batched.pending.utf8ByteSize ≥ streamFlushBytes then
      (batched.flush receiver, receiver batched.sends)
    else (batched, true)

/-- `next_line` gives a line without its terminator, or an error where it is no text. -/
def nextLine (piece : List UInt8) : Option String :=
  (Text.strict piece).map fun text => String.ofList (Text.unterminated text.toList)

def loop (receiver : Nat → Bool) (pump : Pump) : List (List UInt8) → Pump
  | [] => pump
  | piece :: rest =>
      match nextLine piece with
      | none => pump
      | some line =>
          let next := pump.takeLine receiver line
          if next.2 then next.1.loop receiver rest else next.1

/-- The pump of a stream that arrives in some reads. -/
def run (receiver : Nat → Bool) (reads : List (List UInt8)) : Pump :=
  (start.loop receiver (Lines.readPieces 10 reads)).flush receiver

end Pump

structure ShellOutputChunk where
  channel : Stream
  data : String
  deriving DecidableEq

structure ShellResult where
  exitCode : Option Int
  stdout : String
  stderr : String
  durationMs : Nat
  outputTruncated : Bool

/-- Only a child that exited by itself has a result, and both pumps have ended by then. -/
def awaitResult (outcome : Outcome) (durationMs : Nat) (pumps : Stream → Pump) :
    Except Outcome ShellResult :=
  match outcome with
  | .exited code => .ok {
      exitCode := code
      stdout := (pumps .stdout).buffer.text
      stderr := (pumps .stderr).buffer.text
      durationMs
      outputTruncated := (pumps .stdout).buffer.dropped || (pumps .stderr).buffer.dropped }
  | other => .error other

def ShellResult.of (result : ShellResult) : Stream → String
  | .stdout => result.stdout
  | .stderr => result.stderr

/-- The data of the chunks of one channel. -/
def chunksOf (channel : Stream) (received : List ShellOutputChunk) : List String :=
  (received.filter (·.channel = channel)).map ShellOutputChunk.data

end Daemon.Shell
