import SynthHiresBridge.Data.Clip
import SynthHiresBridge.Data.Text

namespace Daemon.Pty

def ringLines : Nat := 1000

def partialBytes : Nat := 16 * 1024

/-- `str::len` of some characters. -/
def byteLen (chars : List Char) : Nat := Clip.weight Char.utf8Size chars

/-- Where the scrubber is in an escape sequence. It starts each chunk outside of one. -/
inductive Scrubber where
  | text
  | escape
  | csi
  deriving DecidableEq

def isNoise (char : Char) : Bool :=
  char = '\x07' ∨ char = '\x08' ∨ char = '\x0b' ∨ char = '\x0c'

/-- An escape takes the next character with it, and one with a bracket goes on to its final byte. -/
def Scrubber.next : Scrubber → Char → Scrubber
  | .text, char => if char = '\x1b' then .escape else .text
  | .escape, char => if char = '[' then .csi else .text
  | .csi, char => if '\x40' ≤ char ∧ char ≤ '\x7e' then .text else .csi

/-- Only characters outside of escape sequences are shown. -/
def Scrubber.shows (scrubber : Scrubber) (char : Char) : Bool :=
  scrubber = .text ∧ char ≠ '\x1b' ∧ ¬isNoise char

def scrubFrom (scrubber : Scrubber) : List Char → List Char
  | [] => []
  | char :: rest =>
      if scrubber.shows char then char :: scrubFrom (scrubber.next char) rest
      else scrubFrom (scrubber.next char) rest

def scrubAnsi (text : String) : List Char := scrubFrom .text text.toList

/-- The lines of a buffer without their terminators, its last line so far and a count of bytes. -/
structure BufferState where
  lines : List (List Char)
  partialLine : List Char
  bytes : Nat
  deriving DecidableEq

inductive Panic where
  | underflow
  | boundary
  deriving DecidableEq

/-- `String::drain` of a range from the front needs a character boundary at its end. -/
def drainFront : Nat → List Char → Except Panic (List Char)
  | 0, chars => .ok chars
  | _ + 1, [] => .error .boundary
  | cut + 1, char :: rest =>
      if char.utf8Size ≤ cut + 1 then drainFront (cut + 1 - char.utf8Size) rest
      else .error .boundary

namespace BufferState

def empty : BufferState := ⟨[], [], 0⟩

/-- Lines beyond the limit leave the ring from the front. -/
def evict (buffer : BufferState) : Except Panic BufferState :=
  if buffer.lines.length > ringLines then
    let drop := buffer.lines.length - ringLines
    let gone := Clip.weight (fun line => byteLen line + 1) (buffer.lines.take drop)
    if gone ≤ buffer.bytes then
      .ok { buffer with lines := buffer.lines.drop drop, bytes := buffer.bytes - gone }
    else .error .underflow
  else .ok buffer

/-- A newline ends the last line, whose carriage return is dropped but counted. -/
def pushChar (buffer : BufferState) (char : Char) : Except Panic BufferState :=
  if char = '\n' then
    let line := (Text.stripLast '\r' buffer.partialLine).getD buffer.partialLine
    evict ⟨buffer.lines ++ [line], [], buffer.bytes + (byteLen buffer.partialLine + 1)⟩
  else .ok { buffer with partialLine := buffer.partialLine ++ [char] }

/-- The last line is cut from the front when it is too long. -/
def capPartial (buffer : BufferState) : Except Panic BufferState :=
  if byteLen buffer.partialLine > partialBytes then
    (drainFront (byteLen buffer.partialLine - partialBytes) buffer.partialLine).map fun line =>
      { buffer with partialLine := line }
  else .ok buffer

def pushChars (buffer : BufferState) (chars : List Char) : Except Panic BufferState :=
  chars.foldlM pushChar buffer

def push (buffer : BufferState) (chunk : String) : Except Panic BufferState :=
  (buffer.pushChars (scrubAnsi chunk)).bind capPartial

/-- The lines are joined, and the last line follows them and stays in the buffer. -/
def drain (buffer : BufferState) : List Char × BufferState :=
  (['\n'].intercalate buffer.lines ++
      if buffer.partialLine = [] then [] else '\n' :: buffer.partialLine,
    ⟨[], buffer.partialLine, 0⟩)

def pending (buffer : BufferState) : Bool :=
  buffer.lines ≠ [] ∨ buffer.partialLine ≠ []

/-- The reader thread decodes each read by itself. -/
def read (buffer : BufferState) (bytes : List UInt8) : Except Panic BufferState :=
  buffer.push (Text.lossy bytes)

end BufferState

/-- A reader pushes chunks, and operations drain the buffer. -/
inductive Event where
  | push (chunk : String)
  | drain

/-- A buffer with what its drains have given. -/
structure Terminal where
  buffer : BufferState
  delivered : List (List Char)

namespace Terminal

def start : Terminal := ⟨.empty, []⟩

def step (terminal : Terminal) : Event → Except Panic Terminal
  | .push chunk => (terminal.buffer.push chunk).map fun buffer => { terminal with buffer }
  | .drain => .ok ⟨terminal.buffer.drain.2, terminal.delivered ++ [terminal.buffer.drain.1]⟩

def run (terminal : Terminal) (events : List Event) : Except Panic Terminal :=
  events.foldlM step terminal

end Terminal

/-- A wait of a command looks at the buffer after each slice. It ends at the slice after which the
deadline has passed, which comes that many slices from now. -/
def waitFrom (pending : Nat → Bool) : Nat → Nat → Bool → Nat → Nat
  | 0, slice, _, _ => slice
  | left + 1, slice, lastPending, quietSlices =>
      let now := pending (slice + 1)
      if now && lastPending then waitFrom pending left (slice + 1) now 0
      else if !now && !lastPending then
        if quietSlices + 1 ≥ 2 then slice + 1
        else waitFrom pending left (slice + 1) now (quietSlices + 1)
      else waitFrom pending left (slice + 1) now quietSlices

/-- The slice at which the wait of a command ends. -/
def waitLoop (pending : Nat → Bool) (deadline : Nat) : Nat :=
  waitFrom pending deadline 0 (pending 0) 0

example : scrubAnsi "a\x1b[31mb\x1b(Bc\x07" = ['a', 'b', 'B', 'c'] := by decide

end Daemon.Pty
