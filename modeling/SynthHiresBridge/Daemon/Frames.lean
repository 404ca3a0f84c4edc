import SynthHiresBridge.Data.ByteStream
import SynthHiresBridge.Data.Cut
import SynthHiresBridge.Daemon.Autoupdate

namespace Daemon

namespace Frame

def maxFrameBytes : Nat := 10 * 1024 * 1024

def frameMessage (body : String) : List UInt8 :=
  Text.encode ("Content-Length: " ++ toString (Text.encode body).length ++ "\r\n\r\n") ++
    Text.encode body

/-- A request of a debug adapter is formatted as one text. -/
def requestFrame (raw : String) : List UInt8 :=
  Text.encode ("Content-Length: " ++ toString (Text.encode raw).length ++ "\r\n\r\n" ++ raw)

def headerEnd : List UInt8 := [13, 10, 13, 10]

/-- Both read loops end at any error. -/
inductive FrameError where
  | read (error : String)
  | headerTooLong
  | headers (bytes : List UInt8)
  | missingLength
  | sizeOutOfBounds
  | body (bytes : List UInt8)
  deriving DecidableEq

/-- The header is read byte by byte, and its end is looked for before its length is checked. -/
def readHeader (stream : ByteStream) (place : Nat) (header : List UInt8) :
    Except FrameError (Option (List UInt8)) × Nat :=
  match stream place with
  | .failed error => (.error (.read error), place)
  | .ended => (.ok none, place)
  | .byte byte =>
      if headerEnd <:+ header ++ [byte] then (.ok (some (header ++ [byte])), place + 1)
      else if (header ++ [byte]).length > 8192 then (.error .headerTooLong, place + 1)
      else readHeader stream (place + 1) (header ++ [byte])
termination_by 8193 - header.length
decreasing_by
  rw [List.length_append, List.length_singleton] at *
  omega

/-- `str::split` with a line break of a header. -/
def headerLines : List Char → List (List Char)
  | [] => [[]]
  | '\r' :: '\n' :: rest => [] :: headerLines rest
  | char :: rest =>
      match headerLines rest with
      | [] => [[char]]
      | line :: lines => (char :: line) :: lines

/-- The last line of that name decides, even when its value is no number. -/
def contentLength (header : String) : Option Nat :=
  (headerLines header.toList).foldl
    (fun found line =>
      match Text.splitOnce [':'] line with
      | none => found
      | some (name, value) =>
          if Text.lower (Text.trim (String.ofList name)).toList = "content-length".toList then
            parseU64 (Text.trim (String.ofList value))
          else found)
    none

def readBody (stream : ByteStream) (place length : Nat) : Except FrameError String × Nat :=
  let read := stream.readExact place length
  match read.1 with
  | .error error => (.error (.read error), read.2)
  | .ok body =>
      match Text.strict body with
      | none => (.error (.body body), read.2)
      | some text => (.ok text, read.2)

/-- One message is read, and there is none at the end of the stream. -/
def readFrame (stream : ByteStream) (place : Nat) : Except FrameError (Option String) × Nat :=
  let read := readHeader stream place []
  match read.1 with
  | .error error => (.error error, read.2)
  | .ok none => (.ok none, read.2)
  | .ok (some header) =>
      match Text.strict header with
      | none => (.error (.headers header), read.2)
      | some headerText =>
          match contentLength headerText with
          | none => (.error .missingLength, read.2)
          | some length =>
              if length = 0 ∨ length > maxFrameBytes then (.error .sizeOutOfBounds, read.2)
              else
                let body := readBody stream read.2 length
                (body.1.map some, body.2)

/-- The place of a stream after a count of reads. -/
def placeAfter (stream : ByteStream) : Nat → Nat
  | 0 => 0
  | count + 1 => (readFrame stream (placeAfter stream count)).2

/-- The outcome of a read after a count of other reads. -/
def readAgain (stream : ByteStream) (count : Nat) : Except FrameError (Option String) :=
  (readFrame stream (placeAfter stream count)).1

example : contentLength "content-LENGTH : +17 \r\nA:b\r\n\r\n" = some 17 := by decide

end Frame

end Daemon
