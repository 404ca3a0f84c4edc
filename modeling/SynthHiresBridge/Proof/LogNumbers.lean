import SynthHiresBridge.Data.Suffix
import SynthHiresBridge.Proof.ProcessEnd

namespace Daemon.ProcEngine

open Transition

/-- Windows of different lines are the same only at one place or past the end. -/
theorem windows_agree_iff {lines : List String} (distinct : lines.Nodup) {first second size : Nat}
    (positive : 1 ≤ size) : (lines.drop first).take size = (lines.drop second).take size ↔
      first = second ∨ lines.length ≤ first ∧ lines.length ≤ second := by
  constructor
  · intro agree
    have heads := congrArg (fun window : List String => window[0]?) agree
    simp only [List.getElem?_take, List.getElem?_drop, Nat.add_zero,
      if_pos (Nat.lt_of_lt_of_le Nat.zero_lt_one positive)] at heads
    by_cases low : first < lines.length
    · exact .inl ((List.getElem?_inj low distinct).mp heads)
    · have past := Nat.not_lt.mp low
      rw [List.getElem?_eq_none past] at heads
      exact .inr ⟨past, List.getElem?_eq_none_iff.mp heads.symm⟩
  · rintro (rfl | ⟨past, also⟩)
    · rfl
    · rw [List.drop_eq_nil_of_le past, List.drop_eq_nil_of_le also]

/-- There are as many different lines as one likes. -/
theorem exists_distinct (count : Nat) : ∃ lines : List String, lines.length = count ∧ lines.Nodup := by
  refine ⟨(List.range count).map fun number => String.ofList (List.replicate number 'a'),
    by rw [List.length_map, List.length_range], ?_⟩
  refine List.Nodup.map (fun first second same => ?_) List.nodup_range
  have long := congrArg String.length same
  rwa [String.length_ofList, String.length_ofList, List.length_replicate,
    List.length_replicate] at long

namespace LogRing

/-- The ring after some lines were pushed. -/
def fill (pushed : List String) : LogRing := pushed.foldl push ⟨[], 0⟩

theorem fill_concat (pushed : List String) (line : String) :
    fill (pushed ++ [line]) = (fill pushed).push line := by
  rw [fill, List.foldl_append]
  rfl

/-- The ring has the last lines, and it counts all of them. -/
theorem fill_eq (pushed : List String) :
    fill pushed = ⟨pushed.drop (pushed.length - 500), pushed.length⟩ := by
  induction pushed using List.reverseRecOn with
  | nil => rfl
  | append_singleton pushed line ih =>
      have kept := Suffix.drop_concat (Nat.succ_pos 499) pushed line
      rw [fill_concat, ih, push, kept, List.length_append, List.length_singleton]

theorem fill_retained (pushed : List String) :
    (fill pushed).lines.length = min pushed.length 500 := by
  rw [fill_eq, List.length_drop]
  omega

/-- The lines from a number on that the ring still has, up to the limit of one read. -/
def numbered (pushed : List String) (start limit : Option Nat) : List String :=
  (pushed.drop (Nat.max (start.getD 0) (pushed.length - (fill pushed).lines.length))).take
    (Nat.max 1 (Nat.min (limit.getD 200) 1000))

theorem read_fill (pushed : List String) (start limit : Option Nat) :
    (fill pushed).read start limit =
      ((pushed.drop (2 * (pushed.length - 500) + min (start.getD 0) pushed.length)).take
        (Nat.max 1 (Nat.min (limit.getD 200) 1000)), pushed.length) := by
  have skipped : pushed.length - (pushed.length - (pushed.length - 500)) = pushed.length - 500 := by
    omega
  rw [read, fill_eq]
  simp only [List.length_drop, List.drop_drop, skipped]
  rw [← Nat.two_mul]

theorem numbered_eq (pushed : List String) (start limit : Option Nat) :
    numbered pushed start limit =
      (pushed.drop (Nat.max (start.getD 0) (pushed.length - 500))).take
        (Nat.max 1 (Nat.min (limit.getD 200) 1000)) := by
  have kept : pushed.length - min pushed.length 500 = pushed.length - 500 := by omega
  rw [numbered, fill_retained, kept]

/-- A read gives the lines that it should when it starts at the right place or past the end. -/
theorem read_numbered {pushed : List String} {start limit : Option Nat}
    (late : pushed.length ≤ 500 ∨ pushed.length ≤ start.getD 0) :
    (fill pushed).read start limit = (numbered pushed start limit, pushed.length) := by
  have larger : Nat.max (start.getD 0) (pushed.length - 500) =
      max (start.getD 0) (pushed.length - 500) := rfl
  rw [read_fill, numbered_eq, larger]
  rcases late with fits | past
  · rw [Nat.sub_eq_zero_of_le fits, Nat.mul_zero, Nat.zero_add, Nat.max_zero]
    rcases Nat.le_total (start.getD 0) pushed.length with inside | past
    · rw [Nat.min_eq_left inside]
    · rw [Nat.min_eq_right past, List.drop_length, List.drop_eq_nil_of_le past]
  · rw [List.drop_eq_nil_of_le (by omega), List.drop_eq_nil_of_le (by omega)]

theorem read_distinct_iff {pushed : List String} (distinct : pushed.Nodup) (start limit : Option Nat) :
    (fill pushed).read start limit = (numbered pushed start limit, pushed.length) ↔
      pushed.length ≤ 500 ∨ pushed.length ≤ start.getD 0 := by
  have larger : Nat.max (start.getD 0) (pushed.length - 500) =
      max (start.getD 0) (pushed.length - 500) := rfl
  rw [read_fill, numbered_eq, Prod.mk.injEq, and_iff_left rfl,
    windows_agree_iff distinct (Nat.le_max_left _ _), larger]
  omega

/-- Whatever the lines say, they are read by their numbers until the ring is full, and after that
only past the end. No history of different lines is an exception. -/
theorem read_numbered_iff (count : Nat) (start limit : Option Nat) :
    ((∀ pushed : List String, pushed.length = count →
        (fill pushed).read start limit = (numbered pushed start limit, count)) ↔
      count ≤ 500 ∨ count ≤ start.getD 0) ∧
    ∀ pushed : List String, pushed.length = count → pushed.Nodup →
      ((fill pushed).read start limit = (numbered pushed start limit, count) ↔
        count ≤ 500 ∨ count ≤ start.getD 0) := by
  refine ⟨⟨fun all => ?_, fun late pushed long => ?_⟩, fun pushed long distinct => ?_⟩
  · obtain ⟨pushed, long, distinct⟩ := exists_distinct count
    have own := all pushed long
    rw [← long] at own ⊢
    exact (read_distinct_iff distinct start limit).mp own
  · rw [← long] at late ⊢
    exact read_numbered late
  · rw [← long]
    exact read_distinct_iff distinct start limit

/-- A process with a thousand lines shows none of them to a reader that starts at the front. -/
theorem thousand_unread : ¬ ∀ pushed : List String, pushed.length = 1000 →
    (fill pushed).read none none = (numbered pushed none none, 1000) := by
  intro agree
  have read := congrArg Prod.fst (agree (List.replicate 1000 "") List.length_replicate)
  rw [read_fill, numbered_eq, List.length_replicate, List.drop_replicate, List.drop_replicate,
    List.take_replicate, List.take_replicate] at read
  have long := congrArg List.length read
  rw [List.length_replicate, List.length_replicate] at long
  exact absurd long (by decide)

/-- A reader that starts each page at the next line that it has not seen. -/
def pages (pushed : List String) (limit : Option Nat) : Nat → List String
  | 0 => []
  | count + 1 =>
      let seen := pages pushed limit count
      seen ++ ((fill pushed).read (some seen.length) limit).1

/-- Until the ring is full the pages give every line once. -/
theorem pages_eq {pushed : List String} (fits : pushed.length ≤ 500) (limit : Option Nat)
    (count : Nat) : pages pushed limit count =
      pushed.take (count * Nat.max 1 (Nat.min (limit.getD 200) 1000)) := by
  induction count with
  | zero => rw [Nat.zero_mul, List.take_zero, pages]
  | succ count ih =>
      have none : pushed.length - 500 = 0 := Nat.sub_eq_zero_of_le fits
      rw [pages, ih, read_fill, none, Option.getD_some, Nat.mul_zero, Nat.zero_add, List.length_take,
        Nat.min_eq_left (Nat.min_le_right _ _), Nat.succ_mul, List.take_add]
      refine congrArg (List.take _ pushed ++ ·) ?_
      rcases Nat.le_total (count * Nat.max 1 (Nat.min (limit.getD 200) 1000)) pushed.length with
        inside | past
      · rw [Nat.min_eq_left inside]
      · rw [Nat.min_eq_right past, List.drop_length, List.drop_eq_nil_of_le past]

end LogRing

namespace ProcWorld

/-- Every ring has been filled with the lines of its process. -/
def Filled (world : ProcWorld) : Prop :=
  ∀ id launch, world.launches.lookup id = some launch → ∃ pushed, launch.logs = LogRing.fill pushed

theorem Filled.setLaunch {world : ProcWorld} (filled : Filled world) {id : Uuid} {launch : Launch}
    (pushed : List String) (logs : launch.logs = LogRing.fill pushed) :
    Filled (world.setLaunch id launch) := by
  intro other found held
  rw [lookup_setLaunch] at held
  split_ifs at held
  · obtain rfl := Option.some.inj held
    exact ⟨pushed, logs⟩
  · exact filled other found held

/-- A launch that goes on keeps its ring. -/
theorem Filled.proceed {world : ProcWorld} (filled : Filled world) {id : Uuid} {launch next : Launch}
    (held : world.launches.lookup id = some launch) (logs : next.logs = launch.logs) :
    Filled (world.setLaunch id next) := by
  obtain ⟨pushed, made⟩ := filled id launch held
  exact filled.setLaunch pushed (logs.trans made)

theorem Filled.release {world : ProcWorld} (filled : Filled world) :
    Filled (world.step .release) := by
  rw [step]
  split
  · rename_i critical holder
    cases critical with
    | insert id =>
        change Filled { world.insert id with holder := none }
        rw [insert]
        split
        · rename_i launch held
          exact filled.proceed held rfl
        · exact filled
    | signal id =>
        change Filled { (world.signal id).2 with holder := none }
        rw [signal]
        split
        · exact filled
        · split
          · exact filled
          · exact filled
    | logs | wait | list => exact filled
  · exact filled

theorem Filled.step {world : ProcWorld} (filled : Filled world) (event : ProcEvent) :
    Filled (world.step event) := by
  cases event with
  | start id cancel gate command args spawn =>
      rw [ProcWorld.step]
      split
      · exact filled.setLaunch [] rfl
      · exact filled
  | record id =>
      rw [ProcWorld.step]
      split
      · rename_i launch held
        split
        · exact filled.proceed held rfl
        · exact filled
      · exact filled
  | register id =>
      rw [ProcWorld.step]
      split
      · rename_i launch held
        split
        · exact filled.proceed held rfl
        · exact filled
      · exact filled
  | acquire critical =>
      rw [ProcWorld.step]
      split
      · exact filled
      · exact filled
  | release => exact filled.release
  | line id line =>
      rw [ProcWorld.step]
      split
      · rename_i launch held
        obtain ⟨pushed, made⟩ := filled id launch held
        refine filled.setLaunch (pushed ++ [line]) ?_
        rw [made, LogRing.fill_concat]
      · exact filled
  | ends id ending =>
      rw [ProcWorld.step]
      split
      · rename_i launch held
        split
        · exact filled.proceed held rfl
        · exact filled
      · exact filled
  | publish id =>
      rw [ProcWorld.step]
      split
      · rename_i launch held
        split
        · rename_i state ended
          have kept : Filled (world.publish id state) := by
            rw [Filled, publish_launches]
            exact filled
          have still : (world.publish id state).launches.lookup id = some launch := by
            rw [publish_launches]
            exact held
          exact kept.proceed still rfl
        · exact filled
      · exact filled
  | report id =>
      rw [ProcWorld.step]
      split
      · rename_i launch held
        split
        · exact filled.proceed held rfl
        · exact filled
      · exact filled
  | tasks event =>
      rw [ProcWorld.step]
      split
      · exact filled
      · exact filled

theorem run_filled (maxCapacity : Nat) (events : List ProcEvent) :
    Filled (run step (ProcWorld.start maxCapacity) events) := by
  induction events using List.reverseRecOn with
  | nil => exact fun id launch held => nomatch held
  | append_singleton events event ih =>
      rw [run_concat]
      exact ih.step event

/-- The logs of a process are read from a ring that only its lines have filled. -/
theorem run_logs (maxCapacity : Nat) (events : List ProcEvent) (id : Uuid) (start limit : Option Nat)
    (result : LogsResult)
    (read : (run step (ProcWorld.start maxCapacity) events).logs id start limit = .ok result) :
    ∃ pushed, (result.lines, result.total) = (LogRing.fill pushed).read start limit := by
  rw [logs] at read
  split at read
  · cases read
  · obtain rfl := Except.ok.inj read
    cases held : (run step (ProcWorld.start maxCapacity) events).launches.lookup id with
    | none => exact ⟨[], rfl⟩
    | some launch =>
        obtain ⟨pushed, made⟩ := run_filled maxCapacity events id launch held
        exact ⟨pushed, by rw [← made]; rfl⟩

end ProcWorld

end Daemon.ProcEngine
