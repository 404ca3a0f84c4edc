import Mathlib.Data.Finset.Insert
import Mathlib.Data.Finset.Erase
import Mathlib.Logic.Function.Basic
import SynthHiresBridge.Transition.Run

namespace Transition

/-- The ways in which a call comes back. -/
inductive Exit (Reply : Type*) where
  | writeFailed
  | answered (reply : Reply)
  | dropped
  | timedOut
  deriving DecidableEq

/-- A call is written, and then it waits for its reply. -/
inductive Phase where
  | writing
  | waiting
  deriving DecidableEq

/-- A client sends calls of several kinds and routes the messages of its peer by number. -/
structure Client (Kind Message Reply : Type*) where
  route : Message → Option (Nat × Reply)
  /-- The exits on which a call takes its number out of the map. -/
  releases : Kind → Exit Reply → Bool
  /-- What the reader sends to every registered call at the end of the stream. -/
  farewell : Option Reply

/-- The board of a client has the numbers in its map, the calls that run with their phases, the
replies on their way to a call, and the exits of the calls that came back. -/
structure Board (Kind Reply : Type*) where
  nextId : Nat
  pending : Finset Nat
  calls : Nat → Option (Kind × Phase)
  inbox : Nat → Option Reply
  outcomes : List (Nat × Exit Reply)
  ended : Bool

inductive Turn (Kind Message : Type*) where
  | register (kind : Kind)
  | written (id : Nat)
  | writeFailed (id : Nat)
  | message (message : Message)
  | finish (id : Nat)
  | timeout (id : Nat)
  | endOfStream

namespace Board

variable {Kind Message Reply : Type*}

def empty (first : Nat) : Board Kind Reply := ⟨first, ∅, fun _ => none, fun _ => none, [], false⟩

/-- A call comes back, and some exits take its number out of the map. -/
def leave (client : Client Kind Message Reply) (board : Board Kind Reply) (id : Nat) (kind : Kind)
    (exit : Exit Reply) : Board Kind Reply :=
  { board with
    pending := if client.releases kind exit then board.pending.erase id else board.pending
    calls := Function.update board.calls id none
    outcomes := board.outcomes ++ [(id, exit)] }

/-- The reader sends a reply to a registered call. The reply is lost when the call came back. -/
def deliver (board : Board Kind Reply) (id : Nat) (reply : Reply) : Board Kind Reply :=
  if id ∈ board.pending then
    { board with
      pending := board.pending.erase id
      inbox := if (board.calls id).isSome then Function.update board.inbox id (some reply)
        else board.inbox }
  else board

/-- The end of the stream empties the map when the reader says farewell to the calls in it. -/
def close (client : Client Kind Message Reply) (board : Board Kind Reply) : Board Kind Reply :=
  match client.farewell with
  | none => { board with ended := true }
  | some reply =>
      { board with
        ended := true
        pending := ∅
        inbox := fun id => if id ∈ board.pending ∧ (board.calls id).isSome then some reply
          else board.inbox id }

/-- A call that waits takes its reply, and it notices when nobody can reply any more. -/
def finish (client : Client Kind Message Reply) (board : Board Kind Reply) (id : Nat) (kind : Kind) :
    Board Kind Reply :=
  match board.inbox id with
  | some reply => board.leave client id kind (.answered reply)
  | none => if id ∈ board.pending then board else board.leave client id kind .dropped

def step (client : Client Kind Message Reply) (board : Board Kind Reply) :
    Turn Kind Message → Board Kind Reply
  | .register kind =>
      { board with
        nextId := board.nextId + 1
        pending := insert board.nextId board.pending
        calls := Function.update board.calls board.nextId (some (kind, .writing)) }
  | .written id => match board.calls id with
      | some (kind, .writing) =>
          { board with calls := Function.update board.calls id (some (kind, .waiting)) }
      | _ => board
  | .writeFailed id => match board.calls id with
      | some (kind, .writing) => board.leave client id kind .writeFailed
      | _ => board
  | .message message =>
      if board.ended then board
      else match client.route message with
        | some (id, reply) => board.deliver id reply
        | none => board
  | .finish id => match board.calls id with
      | some (kind, .waiting) => board.finish client id kind
      | _ => board
  -- the timer is looked at after the channel, so a reply or a closed channel comes first
  | .timeout id => match board.calls id with
      | some (kind, .waiting) =>
          if id ∈ board.pending then board.leave client id kind .timedOut else board
      | _ => board
  | .endOfStream => if board.ended then board else board.close client

theorem step_message {client : Client Kind Message Reply} {board : Board Kind Reply}
    {message : Message} {id : Nat} {reply : Reply} (going : board.ended = false)
    (routed : client.route message = some (id, reply)) :
    board.step client (.message message) = board.deliver id reply := by
  rw [step, if_neg (by rw [going]; exact Bool.false_ne_true), routed]

/-- A message that is routed to no number of the map changes nothing. -/
theorem step_message_idle {client : Client Kind Message Reply} {board : Board Kind Reply}
    {message : Message} (apart : board.ended = false → ∀ id reply,
      client.route message = some (id, reply) → id ∉ board.pending) :
    board.step client (.message message) = board := by
  rw [step]
  split
  · rfl
  · rename_i going
    split
    · rename_i id reply routed
      rw [deliver, if_neg (apart (Bool.eq_false_iff.mpr going) id reply routed)]
    · rfl

/-- The numbers on a board were given out once, and a call waits for the reader exactly while its
number is in the map. -/
structure Sound (first : Nat) (board : Board Kind Reply) : Prop where
  start : first ≤ board.nextId
  fresh : ∀ id ∈ board.pending, id < board.nextId
  given : ∀ id, first ≤ id ∧ id < board.nextId ↔
    (board.calls id).isSome ∨ id ∈ board.outcomes.map Prod.fst
  once : (board.outcomes.map Prod.fst).Nodup
  apart : ∀ id ∈ board.outcomes.map Prod.fst, board.calls id = none
  reached : ∀ id, (board.calls id).isSome → (id ∈ board.pending ↔ board.inbox id = none)
  unread : ∀ id, board.nextId ≤ id → board.inbox id = none

/-- Every call that came back is out of the map, and no call waits in vain after the end of the
stream. -/
structure Settled (board : Board Kind Reply) : Prop where
  returned : ∀ id ∈ board.outcomes.map Prod.fst, id ∉ board.pending
  prompt : board.ended = true → ∀ id kind, board.calls id = some (kind, .waiting) →
    (board.inbox id).isSome

/-- The turns that leave nothing behind. -/
def Permits (client : Client Kind Message Reply) (board : Board Kind Reply) :
    Turn Kind Message → Prop
  | .writeFailed id => ∀ kind, board.calls id = some (kind, .writing) → id ∈ board.pending →
      client.releases kind .writeFailed = true
  | .timeout id => ∀ kind, board.calls id = some (kind, .waiting) → id ∈ board.pending →
      client.releases kind .timedOut = true
  | .written id => board.ended = true → ∀ kind, board.calls id = some (kind, .writing) →
      id ∉ board.pending
  | .endOfStream => board.ended = false → client.farewell = none → ∀ id kind,
      board.calls id = some (kind, .waiting) → id ∉ board.pending
  | _ => True

/-- A call comes back through an exit of its phase. -/
inductive Leaves (board : Board Kind Reply) (id : Nat) (kind : Kind) : Turn Kind Message →
    Exit Reply → Prop where
  | writeFailed : board.calls id = some (kind, .writing) →
      Leaves board id kind (.writeFailed id) .writeFailed
  | answered (reply : Reply) : board.calls id = some (kind, .waiting) →
      board.inbox id = some reply → Leaves board id kind (.finish id) (.answered reply)
  | dropped : board.calls id = some (kind, .waiting) → board.inbox id = none →
      id ∉ board.pending → Leaves board id kind (.finish id) .dropped
  | timedOut : board.calls id = some (kind, .waiting) → id ∈ board.pending →
      Leaves board id kind (.timeout id) .timedOut

theorem Leaves.running {board : Board Kind Reply} {id : Nat} {kind : Kind}
    {turn : Turn Kind Message} {exit : Exit Reply} (leaves : Leaves board id kind turn exit) :
    ∃ phase, board.calls id = some (kind, phase) := by
  cases leaves with
  | writeFailed running => exact ⟨_, running⟩
  | answered reply running => exact ⟨_, running⟩
  | dropped running => exact ⟨_, running⟩
  | timedOut running => exact ⟨_, running⟩

/-- What a turn can do to a board. -/
inductive Effect (client : Client Kind Message Reply) (board : Board Kind Reply) :
    Turn Kind Message → Board Kind Reply → Prop where
  | idle {turn : Turn Kind Message} : Permits client board turn → Effect client board turn board
  | register (kind : Kind) : Effect client board (.register kind) (board.step client (.register kind))
  | written (id : Nat) (kind : Kind) : board.calls id = some (kind, .writing) →
      Effect client board (.written id)
        { board with calls := Function.update board.calls id (some (kind, .waiting)) }
  | leave {turn : Turn Kind Message} (id : Nat) (kind : Kind) (exit : Exit Reply) :
      Leaves board id kind turn exit → Effect client board turn (board.leave client id kind exit)
  | deliver (message : Message) (id : Nat) (reply : Reply) :
      client.route message = some (id, reply) → board.ended = false → id ∈ board.pending →
      Effect client board (.message message) (board.deliver id reply)
  | close : board.ended = false → Effect client board .endOfStream (board.close client)

theorem step_effect (client : Client Kind Message Reply) (board : Board Kind Reply)
    (turn : Turn Kind Message) : Effect client board turn (board.step client turn) := by
  cases turn with
  | register kind => exact .register kind
  | written id =>
      rw [step]
      split
      · rename_i kind running
        exact .written id kind running
      · rename_i other
        exact .idle fun _ kind running => absurd running (other kind)
  | writeFailed id =>
      rw [step]
      split
      · rename_i kind running
        exact .leave id kind .writeFailed (.writeFailed running)
      · rename_i other
        exact .idle fun kind running => absurd running (other kind)
  | message message =>
      rw [step]
      split
      · exact .idle trivial
      · rename_i going
        split
        · rename_i id reply routed
          by_cases known : id ∈ board.pending
          · exact .deliver message id reply routed (Bool.eq_false_iff.mpr going) known
          · rw [deliver, if_neg known]
            exact .idle trivial
        · exact .idle trivial
  | finish id =>
      rw [step]
      split
      · rename_i kind running
        rw [finish]
        split
        · rename_i reply held
          exact .leave id kind _ (.answered reply running held)
        · rename_i empty
          split
          · exact .idle trivial
          · rename_i gone
            exact .leave id kind _ (.dropped running empty gone)
      · exact .idle trivial
  | timeout id =>
      rw [step]
      split
      · rename_i kind running
        split
        · rename_i known
          exact .leave id kind _ (.timedOut running known)
        · rename_i gone
          exact .idle fun kind _ known => absurd known gone
      · rename_i other
        exact .idle fun kind running => absurd running (other kind)
  | endOfStream =>
      rw [step]
      split
      · rename_i ended
        exact .idle fun going => absurd (going ▸ ended) Bool.false_ne_true
      · rename_i going
        exact .close (Bool.eq_false_iff.mpr going)

theorem sound_empty (first : Nat) : Sound first (empty first : Board Kind Reply) := by
  constructor
  · exact Nat.le_refl first
  · simp [empty]
  · intro id
    simp only [empty, Option.isSome_none, Bool.false_eq_true, List.map_nil, List.not_mem_nil,
      or_false, iff_false]
    omega
  · simp [empty]
  · simp [empty]
  · simp [empty]
  · simp [empty]

namespace Sound

variable {client : Client Kind Message Reply} {first : Nat} {board : Board Kind Reply}

/-- A call that runs has a number that was given out and did not come back. -/
theorem known (sound : Sound first board) {id : Nat} {call : Kind × Phase}
    (running : board.calls id = some call) :
    id < board.nextId ∧ id ∉ board.outcomes.map Prod.fst := by
  constructor
  · exact ((sound.given id).mpr (.inl (by rw [running]; rfl))).2
  · intro back
    rw [sound.apart id back] at running
    cases running

theorem free (sound : Sound first board) : board.calls board.nextId = none ∧
    board.nextId ∉ board.pending ∧ board.nextId ∉ board.outcomes.map Prod.fst := by
  have unused : ¬((board.calls board.nextId).isSome ∨
      board.nextId ∈ board.outcomes.map Prod.fst) := by
    rw [← sound.given]
    omega
  rw [not_or] at unused
  refine ⟨Option.not_isSome_iff_eq_none.mp unused.1, ?_, unused.2⟩
  intro inside
  exact Nat.lt_irrefl _ (sound.fresh _ inside)

theorem register (sound : Sound first board) (kind : Kind) :
    Sound first (board.step client (.register kind)) := by
  obtain ⟨idle, out, never⟩ := sound.free
  constructor
  · exact Nat.le_succ_of_le sound.start
  · intro id inside
    show id < board.nextId + 1
    rcases Finset.mem_insert.mp inside with rfl | old
    · exact Nat.lt_succ_self _
    · exact Nat.lt_succ_of_lt (sound.fresh id old)
  · intro id
    show first ≤ id ∧ id < board.nextId + 1 ↔
      (Function.update board.calls board.nextId _ id).isSome ∨ _
    have start := sound.start
    by_cases own : id = board.nextId
    · subst own
      simp [start]
    · rw [Function.update_of_ne own]
      change _ ↔ _ ∨ id ∈ board.outcomes.map Prod.fst
      rw [← sound.given id]
      omega
  · exact sound.once
  · intro id back
    have other : id ≠ board.nextId := fun same => never (same ▸ back)
    exact (Function.update_of_ne other _ _).trans (sound.apart id back)
  · intro id running
    show id ∈ insert board.nextId board.pending ↔ board.inbox id = none
    by_cases own : id = board.nextId
    · subst own
      simp [sound.unread]
    · rw [Finset.mem_insert, or_iff_right own]
      apply sound.reached
      rwa [show (board.step client (.register kind)).calls id = board.calls id from
        Function.update_of_ne own _ _] at running
  · intro id above
    exact sound.unread id (Nat.le_of_succ_le above)

theorem written (sound : Sound first board) {id : Nat} {kind : Kind}
    (running : board.calls id = some (kind, .writing)) :
    Sound first { board with calls := Function.update board.calls id (some (kind, .waiting)) } := by
  have same : ∀ other, (Function.update board.calls id (some (kind, .waiting)) other).isSome =
      (board.calls other).isSome := by
    intro other
    by_cases own : other = id
    · subst own
      simp [running]
    · rw [Function.update_of_ne own]
  constructor
  · exact sound.start
  · exact sound.fresh
  · intro other
    dsimp only
    rw [same]
    exact sound.given other
  · exact sound.once
  · intro other back
    have apart := sound.apart other back
    have apartIsSome := same other
    rw [apart] at apartIsSome
    exact Option.isNone_iff_eq_none.mp (by simpa using apartIsSome)
  · intro other live
    dsimp only at live
    rw [same] at live
    exact sound.reached other live
  · exact sound.unread

theorem leave (sound : Sound first board) {id : Nat} {kind : Kind} {phase : Phase}
    (running : board.calls id = some (kind, phase)) (exit : Exit Reply) :
    Sound first (board.leave client id kind exit) := by
  obtain ⟨given, back⟩ := sound.known running
  have fewer : (board.leave client id kind exit).pending ⊆ board.pending := by
    rw [Board.leave]
    dsimp only
    split
    · exact Finset.erase_subset id board.pending
    · exact Finset.Subset.refl _
  have names : (board.leave client id kind exit).outcomes.map Prod.fst =
      board.outcomes.map Prod.fst ++ [id] := by
    simp [Board.leave]
  have calls : (board.leave client id kind exit).calls = Function.update board.calls id none := rfl
  constructor
  · exact sound.start
  · intro other inside
    exact sound.fresh other (fewer inside)
  · intro other
    rw [names, calls, List.mem_append, List.mem_singleton]
    change first ≤ other ∧ other < board.nextId ↔ _
    rw [sound.given other]
    by_cases own : other = id
    · subst own
      simp [running]
    · rw [Function.update_of_ne own]
      tauto
  · rw [names, List.nodup_append]
    refine ⟨sound.once, List.nodup_singleton id, ?_⟩
    intro one inside two single same
    rw [List.mem_singleton.mp single] at same
    exact back (same ▸ inside)
  · intro other back
    rw [calls]
    by_cases own : other = id
    · rw [own, Function.update_self]
    · rw [names, List.mem_append, List.mem_singleton, or_iff_left own] at back
      rw [Function.update_of_ne own]
      exact sound.apart other back
  · intro other live
    rw [calls] at live
    have own : other ≠ id := by
      rintro rfl
      simp at live
    rw [Function.update_of_ne own] at live
    change _ ↔ board.inbox other = none
    rw [← sound.reached other live]
    show other ∈ (if client.releases kind exit then board.pending.erase id else board.pending) ↔ _
    split
    · rw [Finset.mem_erase, and_iff_right own]
    · rfl
  · exact sound.unread

theorem deliver (sound : Sound first board) {id : Nat} (reply : Reply) (inside : id ∈ board.pending) :
    Sound first (board.deliver id reply) := by
  rw [Board.deliver, if_pos inside]
  constructor
  · exact sound.start
  · intro other rest
    exact sound.fresh other (Finset.mem_of_mem_erase rest)
  · exact sound.given
  · exact sound.once
  · exact sound.apart
  · intro other live
    dsimp only at live ⊢
    by_cases own : other = id
    · subst own
      rw [if_pos live, Function.update_self]
      simp
    · rw [Finset.mem_erase, and_iff_right own, sound.reached other live]
      split
      · rw [Function.update_of_ne own]
      · rfl
  · intro other above
    have own : other ≠ id := by
      rintro rfl
      exact Nat.lt_irrefl _ (Nat.lt_of_lt_of_le (sound.fresh other inside) above)
    dsimp only
    split
    · rw [Function.update_of_ne own]
      exact sound.unread other above
    · exact sound.unread other above

theorem close (sound : Sound first board) : Sound first (board.close client) := by
  rw [Board.close]
  split
  · exact ⟨sound.start, sound.fresh, sound.given, sound.once, sound.apart, sound.reached, sound.unread⟩
  · rename_i reply _
    constructor
    · exact sound.start
    · intro id inside
      simp at inside
    · exact sound.given
    · exact sound.once
    · exact sound.apart
    · intro id live
      dsimp only at live ⊢
      by_cases inside : id ∈ board.pending
      · rw [if_pos ⟨inside, live⟩]
        simp
      · rw [if_neg fun both => inside both.1, ← sound.reached id live]
        simp [inside]
    · intro id above
      dsimp only
      have outside : id ∉ board.pending := fun inside =>
        Nat.lt_irrefl _ (Nat.lt_of_lt_of_le (sound.fresh id inside) above)
      rw [if_neg fun both => outside both.1]
      exact sound.unread id above

/-- Every turn keeps a board sound. -/
theorem step (sound : Sound first board) (turn : Turn Kind Message) :
    Sound first (board.step client turn) := by
  have effect := step_effect client board turn
  generalize board.step client turn = after at effect ⊢
  cases effect with
  | idle permitted => exact sound
  | register kind => exact sound.register kind
  | written id kind running => exact sound.written running
  | leave id kind exit leaves =>
      obtain ⟨phase, running⟩ := leaves.running
      exact sound.leave running exit
  | deliver message id reply routed going inside => exact sound.deliver reply inside
  | close going => exact sound.close

/-- A call that runs waits for its reply exactly while its number is in the map. -/
theorem isSome_inbox (sound : Sound first board) {id : Nat} {call : Kind × Phase}
    (running : board.calls id = some call) : (board.inbox id).isSome ↔ id ∉ board.pending := by
  rw [sound.reached id (by rw [running]; rfl)]
  cases board.inbox id <;> simp

theorem settled_written (sound : Sound first board) (settled : Settled board) {id : Nat}
    {kind : Kind} (running : board.calls id = some (kind, .writing)) :
    Settled { board with calls := Function.update board.calls id (some (kind, .waiting)) } ↔
      Permits client board (.written id : Turn Kind Message) := by
  constructor
  · intro after ended kind' running'
    have prompt := after.prompt ended id kind (Function.update_self id _ _)
    exact (sound.isSome_inbox running).mp prompt
  · intro permitted
    refine ⟨settled.returned, ?_⟩
    intro ended other kind' waiting
    dsimp only at ended waiting ⊢
    by_cases own : other = id
    · subst own
      exact (sound.isSome_inbox running).mpr (permitted ended kind running)
    · rw [Function.update_of_ne own] at waiting
      exact settled.prompt ended other kind' waiting

/-- A call that comes back leaves nothing behind when its number is out of the map. -/
theorem settled_leave (settled : Settled board) (id : Nat) (kind : Kind) (exit : Exit Reply) :
    Settled (board.leave client id kind exit) ↔
      (id ∈ board.pending → client.releases kind exit = true) := by
  have names : (board.leave client id kind exit).outcomes.map Prod.fst =
      board.outcomes.map Prod.fst ++ [id] := by
    simp [Board.leave]
  have pending : (board.leave client id kind exit).pending =
      if client.releases kind exit then board.pending.erase id else board.pending := rfl
  constructor
  · intro after inside
    have out := after.returned id (by rw [names]; simp)
    rw [pending] at out
    by_contra kept
    rw [if_neg kept] at out
    exact out inside
  · intro released
    constructor
    · intro other back
      rw [names, List.mem_append, List.mem_singleton] at back
      rw [pending]
      rcases back with old | rfl
      · have out := settled.returned other old
        split
        · exact fun inside => out (Finset.mem_of_mem_erase inside)
        · exact out
      · split
        · simp
        · rename_i kept
          exact fun inside => kept (released inside)
    · intro ended other kind' waiting
      change Function.update board.calls id none other = _ at waiting
      by_cases own : other = id
      · subst own
        simp at waiting
      · rw [Function.update_of_ne own] at waiting
        exact settled.prompt ended other kind' waiting

theorem settled_close (sound : Sound first board) (settled : Settled board)
    (going : board.ended = false) :
    Settled (board.close client) ↔
      Permits client board (.endOfStream : Turn Kind Message) := by
  rw [Board.close]
  split
  · rename_i silent
    constructor
    · intro after _ _ id kind waiting
      exact (sound.isSome_inbox waiting).mp (after.prompt rfl id kind waiting)
    · intro permitted
      refine ⟨settled.returned, ?_⟩
      intro _ id kind waiting
      exact (sound.isSome_inbox waiting).mpr (permitted going silent id kind waiting)
  · rename_i reply said
    constructor
    · intro after _ silent
      rw [said] at silent
      cases silent
    · intro permitted
      constructor
      · intro id back
        simp
      · intro _ id kind waiting
        dsimp only at waiting ⊢
        by_cases inside : id ∈ board.pending
        · rw [if_pos ⟨inside, by rw [waiting]; rfl⟩]
          rfl
        · rw [if_neg fun both => inside both.1]
          exact (sound.isSome_inbox waiting).mpr inside

/-- A turn on a settled board leaves it settled exactly when it is permitted. -/
theorem settled_step (sound : Sound first board) (settled : Settled board)
    (turn : Turn Kind Message) :
    Settled (board.step client turn) ↔ Permits client board turn := by
  have effect := step_effect client board turn
  generalize board.step client turn = after at effect ⊢
  cases effect with
  | idle permitted => exact iff_of_true settled permitted
  | register kind =>
      obtain ⟨idle, out, never⟩ := sound.free
      refine iff_of_true ⟨?_, ?_⟩ trivial
      · intro id back inside
        rcases Finset.mem_insert.mp inside with rfl | old
        · exact never back
        · exact settled.returned id back old
      · intro ended id other waiting
        change Function.update board.calls board.nextId _ id = _ at waiting
        by_cases own : id = board.nextId
        · subst own
          simp at waiting
        · rw [Function.update_of_ne own] at waiting
          exact settled.prompt ended id other waiting
  | written id kind running => exact sound.settled_written settled running
  | leave id kind exit leaves =>
      rw [settled_leave settled]
      cases leaves with
      | writeFailed running =>
          constructor
          · intro released other running' inside
            rw [running] at running'
            cases running'
            exact released inside
          · exact fun permitted inside => permitted kind running inside
      | answered reply running held =>
          refine iff_of_true (fun inside => ?_) trivial
          have out := (sound.isSome_inbox running).mp (by rw [held]; rfl)
          exact absurd inside out
      | dropped running empty gone => exact iff_of_true (fun inside => absurd inside gone) trivial
      | timedOut running inside =>
          constructor
          · intro released other running' _
            rw [running] at running'
            cases running'
            exact released inside
          · exact fun permitted inside => permitted kind running inside
  | deliver message id reply routed going inside =>
      refine iff_of_true ⟨?_, ?_⟩ trivial
      · intro other back
        rw [Board.deliver, if_pos inside] at back ⊢
        have out := settled.returned other back
        exact fun rest => out (Finset.mem_of_mem_erase rest)
      · intro ended
        rw [Board.deliver, if_pos inside] at ended
        rw [going] at ended
        cases ended
  | close going => exact sound.settled_close settled going

/-- A number that was given out belongs to a call that runs or to exactly one exit. -/
theorem one_exit (sound : Sound first board) {id : Nat} (low : first ≤ id)
    (high : id < board.nextId) :
    (board.calls id).isSome ∧ (board.outcomes.map Prod.fst).count id = 0 ∨
      board.calls id = none ∧ (board.outcomes.map Prod.fst).count id = 1 := by
  rcases (sound.given id).mp ⟨low, high⟩ with running | back
  · obtain ⟨call, same⟩ := Option.isSome_iff_exists.mp running
    exact .inl ⟨running, List.count_eq_zero.mpr (sound.known same).2⟩
  · exact .inr ⟨sound.apart id back, List.count_eq_one_of_mem sound.once back⟩

end Sound

variable (client : Client Kind Message Reply) (first : Nat)

/-- The board after a run of turns. -/
abbrev after (turns : List (Turn Kind Message)) : Board Kind Reply :=
  run (step client) (empty first) turns

theorem sound_after (turns : List (Turn Kind Message)) : Sound first (after client first turns) := by
  induction turns using List.reverseRecOn with
  | nil => exact sound_empty first
  | append_singleton turns turn ih =>
      rw [after, run_concat]
      exact ih.step turn

theorem settled_empty : Settled (empty first : Board Kind Reply) := by
  constructor
  · simp [empty]
  · simp [empty]

/-- A board is settled after every turn of a run exactly when every turn was permitted. -/
theorem settled_throughout (turns : List (Turn Kind Message)) :
    Throughout (fun before turn => Settled (after client first (before ++ [turn]))) turns ↔
      Throughout (fun before turn => Permits client (after client first before) turn) turns := by
  simp only [after, run_concat]
  refine Throughout.iff_of_step (fun board => Sound first board ∧ Settled board)
    (fun board turn => Settled (step client board turn))
    (fun board turn => Permits client board turn) ?_ ?_ ?_ turns
  · exact ⟨sound_empty first, settled_empty first⟩
  · rintro board turn ⟨sound, settled⟩
    exact sound.settled_step settled turn
  · rintro board turn ⟨sound, settled⟩ permitted
    exact ⟨sound.step turn, (sound.settled_step settled turn).mpr permitted⟩

/-- A reply that reached a call was on the way before, or it comes with this turn. -/
theorem answered_step {board : Board Kind Reply} {turn : Turn Kind Message} {id : Nat}
    {reply : Reply} (given : (board.step client turn).inbox id = some reply ∨
      (id, Exit.answered reply) ∈ (board.step client turn).outcomes) :
    (board.inbox id = some reply ∨ (id, Exit.answered reply) ∈ board.outcomes) ∨
      client.farewell = some reply ∨
      ∃ message, turn = .message message ∧ client.route message = some (id, reply) ∧
        board.ended = false ∧ id ∈ board.pending := by
  have effect := step_effect client board turn
  generalize board.step client turn = after at effect given
  cases effect with
  | idle permitted => exact .inl given
  | register kind => exact .inl given
  | written own kind running => exact .inl given
  | leave own kind exit leaves =>
      rcases given with held | back
      · exact .inl (.inl held)
      · change _ ∈ board.outcomes ++ [(own, exit)] at back
        rcases List.mem_append.mp back with old | new
        · exact .inl (.inr old)
        · rw [List.mem_singleton, Prod.mk.injEq] at new
          obtain ⟨rfl, rfl⟩ := new
          cases leaves with
          | answered _ running held => exact .inl (.inl held)
  | deliver message own sent routed going inside =>
      rw [deliver, if_pos inside] at given
      rcases given with held | old
      · dsimp only at held
        split at held
        · by_cases same : id = own
          · subst same
            rw [Function.update_self] at held
            obtain rfl := Option.some.inj held
            exact .inr (.inr ⟨message, rfl, routed, going, inside⟩)
          · rw [Function.update_of_ne same] at held
            exact .inl (.inl held)
        · exact .inl (.inl held)
      · exact .inl (.inr old)
  | close going =>
      rw [close] at given
      split at given
      · exact .inl given
      · rename_i said farewell
        rcases given with held | old
        · dsimp only at held
          split at held
          · obtain rfl := Option.some.inj held
            exact .inr (.inl farewell)
          · exact .inl (.inl held)
        · exact .inl (.inr old)

/-- What a call is answered with was routed to its number while the number was in the map, or it is
the farewell of the reader. -/
theorem answered_routed (turns : List (Turn Kind Message)) {id : Nat} {reply : Reply}
    (given : (after client first turns).inbox id = some reply ∨
      (id, Exit.answered reply) ∈ (after client first turns).outcomes) :
    client.farewell = some reply ∨
      ∃ front message rest, turns = front ++ .message message :: rest ∧
        client.route message = some (id, reply) ∧ (after client first front).ended = false ∧
        id ∈ (after client first front).pending := by
  induction turns using List.reverseRecOn with
  | nil => simp [empty] at given
  | append_singleton turns turn ih =>
      rw [after, run_concat] at given
      rcases answered_step client given with old | farewell | ⟨message, rfl, routed⟩
      · rcases ih old with farewell | ⟨front, message, rest, rfl, routed⟩
        · exact .inl farewell
        · exact .inr ⟨front, message, rest ++ [turn], by simp, routed⟩
      · exact .inl farewell
      · exact .inr ⟨turns, message, [], rfl, routed⟩

end Board

end Transition
