import Mathlib.Data.List.Basic

/-- What one read of a byte gives. -/
inductive Arrival where
  | byte (value : UInt8)
  | ended
  | failed (error : String)
  deriving DecidableEq

/-- A stream gives the same arrival again until its byte is taken. -/
abbrev ByteStream := Nat → Arrival

namespace ByteStream

def ofBytes (bytes : List UInt8) : ByteStream := fun place =>
  match bytes[place]? with
  | some byte => .byte byte
  | none => .ended

/-- `read_exact` takes a count of bytes, and the bytes before an end are taken as well. -/
def readExact (stream : ByteStream) : Nat → Nat → Except String (List UInt8) × Nat
  | place, 0 => (.ok [], place)
  | place, count + 1 =>
      match stream place with
      | .failed error => (.error error, place)
      | .ended => (.error "early eof", place)
      | .byte byte =>
          let rest := readExact stream (place + 1) count
          (rest.1.map (byte :: ·), rest.2)

/-- The bytes arrive one after another from a place on. -/
def Delivers (stream : ByteStream) (place : Nat) (bytes : List UInt8) : Prop :=
  ∀ offset byte, bytes[offset]? = some byte → stream (place + offset) = .byte byte

variable {stream : ByteStream} {place : Nat}

theorem delivers_cons_iff {byte : UInt8} {rest : List UInt8} :
    Delivers stream place (byte :: rest) ↔
      stream place = .byte byte ∧ Delivers stream (place + 1) rest := by
  constructor
  · intro delivers
    refine ⟨delivers 0 byte rfl, fun offset other found => ?_⟩
    have later := delivers (offset + 1) other found
    rwa [Nat.add_comm offset, ← Nat.add_assoc] at later
  · intro ⟨first, later⟩ offset other found
    cases offset with
    | zero =>
        obtain rfl := Option.some.inj found
        exact first
    | succ offset =>
        rw [Nat.add_comm offset, ← Nat.add_assoc]
        exact later offset other found

theorem delivers_append_iff {first second : List UInt8} :
    Delivers stream place (first ++ second) ↔
      Delivers stream place first ∧ Delivers stream (place + first.length) second := by
  induction first generalizing place with
  | nil =>
      have nothing : Delivers stream place [] := fun _ _ found => nomatch found
      rw [List.nil_append, List.length_nil, Nat.add_zero]
      exact ⟨fun later => ⟨nothing, later⟩, And.right⟩
  | cons byte rest ih =>
      rw [List.cons_append, delivers_cons_iff, delivers_cons_iff, ih, List.length_cons,
        Nat.add_right_comm, and_assoc, Nat.add_assoc]

theorem delivers_ofBytes (bytes : List UInt8) : Delivers (ofBytes bytes) 0 bytes := by
  intro offset byte found
  rw [ofBytes, Nat.zero_add, found]

theorem ofBytes_ended (bytes : List UInt8) : ofBytes bytes bytes.length = .ended := by
  rw [ofBytes, List.getElem?_eq_none (Nat.le_refl _)]

theorem readExact_delivers {bytes : List UInt8} (delivers : Delivers stream place bytes) :
    readExact stream place bytes.length = (.ok bytes, place + bytes.length) := by
  induction bytes generalizing place with
  | nil => rfl
  | cons byte rest ih =>
      obtain ⟨first, later⟩ := delivers_cons_iff.mp delivers
      rw [List.length_cons, readExact, first]
      simp only [ih later, Except.map]
      rw [Nat.add_assoc, Nat.add_comm 1]

/-- No more bytes are taken than were asked for. -/
theorem readExact_place (stream : ByteStream) (place count : Nat) :
    ∃ taken ≤ count, (readExact stream place count).2 = place + taken := by
  induction count generalizing place with
  | zero => exact ⟨0, Nat.le_refl 0, rfl⟩
  | succ count ih =>
      rw [readExact]
      cases stream place with
      | failed error => exact ⟨0, Nat.zero_le _, rfl⟩
      | ended => exact ⟨0, Nat.zero_le _, rfl⟩
      | byte value =>
          obtain ⟨taken, few, reached⟩ := ih (place + 1)
          refine ⟨1 + taken, by omega, ?_⟩
          rw [← Nat.add_assoc, ← reached]

end ByteStream
