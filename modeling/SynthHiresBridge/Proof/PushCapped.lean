import SynthHiresBridge.Daemon.ShellOutput
import SynthHiresBridge.Data.Clip

namespace Daemon.Shell

/-- The characters of some chunks in order. -/
def total (chunks : List String) : List Char := chunks.flatMap String.toList

/-- The bytes of some chunks. -/
def size (chunks : List String) : Nat := Clip.weight Char.utf8Size (total chunks)

theorem total_append (front rest : List String) : total (front ++ rest) = total front ++ total rest :=
  List.flatMap_append

theorem total_singleton (data : String) : total [data] = data.toList := List.flatMap_singleton ..

theorem size_append (front rest : List String) : size (front ++ rest) = size front + size rest := by
  rw [size, total_append, Clip.weight_append, size, size]

theorem size_singleton (data : String) : size [data] = data.utf8ByteSize := by
  rw [size, total_singleton, Clip.utf8ByteSize_eq]

def pushAll (chunks : List String) : Accumulator := chunks.foldl pushCapped ⟨"", false⟩

/-- The longest front that fits is kept, and a mark stands behind it when something is cut. -/
def KeepsPrefix (chunks : List String) : Prop :=
  (if size chunks ≤ maxOutputBytes then pushAll chunks = ⟨String.ofList (total chunks), false⟩
    else (pushAll chunks).dropped = true ∧
      ∃ kept, Clip.Longest Char.utf8Size maxOutputBytes (total chunks) kept ∧
        (pushAll chunks).text = String.ofList kept ++ truncationMarker) ∧
  (pushAll chunks).text.utf8ByteSize ≤ maxOutputBytes + truncationMarker.utf8ByteSize

/-- No chunk comes to a buffer that is exactly full, and the characters up to the limit in the first
chunk that does not fit have one byte each. -/
def CutsCleanly (chunks : List String) : Prop :=
  ∀ before data after, chunks = before ++ data :: after → size before ≤ maxOutputBytes →
    size before < maxOutputBytes ∧
      (maxOutputBytes < size (before ++ [data]) →
        Clip.weight Char.utf8Size (data.toList.take (maxOutputBytes - size before)) =
          maxOutputBytes - size before)

/-- Every chunk comes to a buffer that is not full yet, and it fits. -/
def Within (chunks : List String) : Prop :=
  ∀ before data after, chunks = before ++ data :: after →
    size before < maxOutputBytes ∧ size (before ++ [data]) ≤ maxOutputBytes

theorem Within.front {front rest : List String} (within : Within (front ++ rest)) : Within front := by
  intro before data after made
  refine within before data (after ++ rest) ?_
  rw [made, List.append_assoc, List.cons_append]

theorem pushAll_concat (chunks : List String) (data : String) :
    pushAll (chunks ++ [data]) = pushCapped (pushAll chunks) data := by
  rw [pushAll, List.foldl_append]
  rfl

theorem Within.pushAll {chunks : List String} (within : Within chunks) :
    pushAll chunks = ⟨String.ofList (total chunks), false⟩ ∧ size chunks ≤ maxOutputBytes := by
  induction chunks using List.reverseRecOn with
  | nil => exact ⟨rfl, Nat.zero_le _⟩
  | append_singleton chunks data ih =>
      obtain ⟨room, fits⟩ := within chunks data [] rfl
      have held : (String.ofList (total chunks)).utf8ByteSize = size chunks := by
        rw [Clip.utf8ByteSize_eq, String.toList_ofList]
        rfl
      refine ⟨?_, fits⟩
      rw [pushAll_concat, (ih within.front).1, pushCapped, if_neg, if_neg]
      · rw [total_append, total_singleton, String.ofList_append, String.ofList_toList]
      · rw [held, ← size_singleton, ← size_append]
        exact Nat.not_lt.mpr fits
      · rw [held]
        exact Nat.not_le.mpr room

/-- A full buffer takes nothing more. -/
theorem foldl_pushCapped_full {text : String} (full : maxOutputBytes ≤ text.utf8ByteSize)
    (chunks : List String) : chunks.foldl pushCapped ⟨text, true⟩ = ⟨text, true⟩ := by
  induction chunks with
  | nil => rfl
  | cons data rest ih => rw [List.foldl_cons, pushCapped, if_pos full, ih]

theorem pushCapped_full {text : String} (full : maxOutputBytes ≤ text.utf8ByteSize) (data : String) :
    pushCapped ⟨text, false⟩ data = ⟨text, true⟩ := by
  rw [pushCapped, if_pos full]

/-- Either every chunk fits, or there is a first one that finds no room. -/
theorem within_or_first (chunks : List String) : Within chunks ∨
    ∃ before data after, chunks = before ++ data :: after ∧ Within before ∧
      (size before = maxOutputBytes ∨
        size before < maxOutputBytes ∧ maxOutputBytes < size (before ++ [data])) := by
  induction chunks using List.reverseRecOn with
  | nil => exact .inl fun before data after made => absurd made.symm (by simp)
  | append_singleton chunks data ih =>
      rcases ih with within | ⟨before, first, after, rfl, within, late⟩
      · have bound := within.pushAll.2
        by_cases fits : size chunks < maxOutputBytes ∧ size (chunks ++ [data]) ≤ maxOutputBytes
        · left
          intro before other after made
          rcases Clip.place_cases made with ⟨more, early⟩ | ⟨rfl, rfl, -⟩ | ⟨more, past⟩
          · exact within before other more early
          · exact fits
          · rw [past, List.append_assoc, List.append_right_inj] at made
            simp at made
        · right
          refine ⟨chunks, data, [], rfl, within, ?_⟩
          omega
      · right
        exact ⟨before, first, after ++ [data], by simp, within, late⟩

section Late

variable {before after : List String} {data : String} (within : Within before)

include within

theorem pushAll_full (full : size before = maxOutputBytes) :
    pushAll (before ++ data :: after) = ⟨String.ofList (total before), true⟩ := by
  have enough : maxOutputBytes ≤ (String.ofList (total before)).utf8ByteSize := by
    rw [Clip.utf8ByteSize_eq, String.toList_ofList]
    exact Nat.le_of_eq full.symm
  rw [pushAll, List.foldl_append, ← pushAll, within.pushAll.1, List.foldl_cons,
    pushCapped_full enough, foldl_pushCapped_full enough]

variable (after) in
/-- The characters that are kept of the first chunk without enough room. -/
theorem pushAll_cut (room : size before < maxOutputBytes)
    (late : maxOutputBytes < size (before ++ [data])) :
    maxOutputBytes ≤ size before +
        Clip.weight Char.utf8Size (data.toList.take (maxOutputBytes - size before)) ∧
      pushAll (before ++ data :: after) = ⟨String.ofList (total before ++
        data.toList.take (maxOutputBytes - size before)) ++ truncationMarker, true⟩ := by
  have held : (String.ofList (total before)).utf8ByteSize = size before := by
    rw [Clip.utf8ByteSize_eq, String.toList_ofList]
    rfl
  have enough : maxOutputBytes - size before ≤ Clip.weight Char.utf8Size data.toList := by
    rw [size_append, size_singleton, Clip.utf8ByteSize_eq] at late
    omega
  have filled : maxOutputBytes ≤ size before +
      Clip.weight Char.utf8Size (data.toList.take (maxOutputBytes - size before)) := by
    have fills := Clip.solid_utf8Size.take_fills enough
    omega
  have cut : pushCapped ⟨String.ofList (total before), false⟩ data =
      ⟨String.ofList (total before ++ data.toList.take (maxOutputBytes - size before)) ++
        truncationMarker, true⟩ := by
    rw [size_append, size_singleton] at late
    rw [pushCapped, held, if_neg (Nat.not_le.mpr room), if_pos late, String.ofList_append]
  have full : maxOutputBytes ≤ (String.ofList (total before ++
      data.toList.take (maxOutputBytes - size before)) ++ truncationMarker).utf8ByteSize := by
    rw [String.utf8ByteSize_append, Clip.utf8ByteSize_eq, String.toList_ofList, Clip.weight_append]
    exact Nat.le_add_right_of_le filled
  refine ⟨filled, ?_⟩
  rw [pushAll, List.foldl_append, ← pushAll, within.pushAll.1, List.foldl_cons, cut,
    foldl_pushCapped_full full]

end Late

theorem Within.keepsPrefix {chunks : List String} (within : Within chunks) : KeepsPrefix chunks := by
  obtain ⟨whole, fits⟩ := within.pushAll
  refine ⟨?_, ?_⟩
  · rw [if_pos fits, whole]
  · rw [whole, Clip.utf8ByteSize_eq, String.toList_ofList]
    exact Nat.le_add_right_of_le fits

theorem Within.cutsCleanly {chunks : List String} (within : Within chunks) : CutsCleanly chunks := by
  intro before data after made _
  obtain ⟨room, fits⟩ := within before data after made
  exact ⟨room, fun late => absurd late (Nat.not_lt.mpr fits)⟩

/-- The characters before a mark are determined. -/
theorem ofList_append_inj {first second : List Char} {mark : String}
    (same : String.ofList first ++ mark = String.ofList second ++ mark) : first = second := by
  have chars := congrArg String.toList same
  rw [String.toList_append, String.toList_append, String.toList_ofList, String.toList_ofList] at chars
  exact List.append_cancel_right chars

theorem not_keepsPrefix_full {before after : List String} {data : String} (within : Within before)
    (full : size before = maxOutputBytes) : ¬ KeepsPrefix (before ++ data :: after) := by
  intro ⟨kept, _⟩
  have pushed : pushAll (before ++ data :: after) = _ := pushAll_full within full
  split_ifs at kept with fits
  · rw [pushed] at kept
    cases congrArg Accumulator.dropped kept
  · obtain ⟨-, front, longest, text⟩ := kept
    have whole : Clip.Longest Char.utf8Size maxOutputBytes (total (before ++ data :: after))
        (total before) :=
      Clip.solid_utf8Size.longest (by rw [total_append]; exact List.prefix_append _ _) full
    rw [pushed, longest.unique whole] at text
    have bytes := congrArg String.utf8ByteSize text
    rw [String.utf8ByteSize_append] at bytes
    have marked : 0 < truncationMarker.utf8ByteSize := by decide
    dsimp only at bytes
    omega

theorem keepsPrefix_cut_iff {before after : List String} {data : String} (within : Within before)
    (room : size before < maxOutputBytes) (late : maxOutputBytes < size (before ++ [data])) :
    KeepsPrefix (before ++ data :: after) ↔
      Clip.weight Char.utf8Size (data.toList.take (maxOutputBytes - size before)) =
        maxOutputBytes - size before := by
  obtain ⟨filled, pushed⟩ := pushAll_cut after within room late
  have more : ¬ size (before ++ data :: after) ≤ maxOutputBytes := by
    rw [← List.singleton_append, ← List.append_assoc, size_append]
    omega
  have front : total before ++ data.toList.take (maxOutputBytes - size before) <+:
      total (before ++ data :: after) := by
    rw [total_append, ← List.singleton_append, total_append, total_singleton]
    exact (List.prefix_append_right_inj _).mpr
      ((List.take_prefix _ _).trans (List.prefix_append _ _))
  have sum : Clip.weight Char.utf8Size
      (total before ++ data.toList.take (maxOutputBytes - size before)) = size before +
        Clip.weight Char.utf8Size (data.toList.take (maxOutputBytes - size before)) :=
    Clip.weight_append _ _ _
  rw [KeepsPrefix, if_neg more, pushed]
  constructor
  · intro ⟨⟨_, kept, longest, text⟩, _⟩
    have small := longest.fits
    rw [← ofList_append_inj text, sum] at small
    omega
  · intro clean
    have fills : Clip.weight Char.utf8Size
        (total before ++ data.toList.take (maxOutputBytes - size before)) = maxOutputBytes := by
      omega
    refine ⟨⟨rfl, _, Clip.solid_utf8Size.longest front fills, rfl⟩, ?_⟩
    rw [String.utf8ByteSize_append, Clip.utf8ByteSize_eq, String.toList_ofList, fills]

/-- The first chunk without enough room decides whether all chunks are cut cleanly. -/
theorem cutsCleanly_late_iff {before after : List String} {data : String} (within : Within before)
    (late : maxOutputBytes < size (before ++ [data])) (bound : size before ≤ maxOutputBytes) :
    CutsCleanly (before ++ data :: after) ↔ size before < maxOutputBytes ∧
      Clip.weight Char.utf8Size (data.toList.take (maxOutputBytes - size before)) =
        maxOutputBytes - size before := by
  constructor
  · intro clean
    obtain ⟨room, cut⟩ := clean before data after rfl bound
    exact ⟨room, cut late⟩
  · intro ⟨room, cut⟩ first other rest made fits
    rcases Clip.place_cases made with ⟨more, early⟩ | ⟨rfl, rfl, rfl⟩ | ⟨more, past⟩
    · exact within.cutsCleanly first other more early fits
    · exact ⟨room, fun _ => cut⟩
    · rw [past, ← List.singleton_append, ← List.append_assoc, size_append] at fits
      omega

/-- The buffer keeps exactly the prefix when no chunk comes to a full buffer and the cut counts
bytes. -/
theorem keepsPrefix_iff (chunks : List String) : KeepsPrefix chunks ↔ CutsCleanly chunks := by
  rcases within_or_first chunks with within | ⟨before, data, after, rfl, within, late⟩
  · exact iff_of_true within.keepsPrefix within.cutsCleanly
  rcases late with full | ⟨room, late⟩
  · refine iff_of_false (not_keepsPrefix_full within full) fun clean => ?_
    have room := (clean before data after rfl (Nat.le_of_eq full)).1
    omega
  · rw [keepsPrefix_cut_iff within room late,
      cutsCleanly_late_iff within late (Nat.le_of_lt room), and_iff_right room]

/-- A line of two-byte characters is kept up to twice the limit. -/
def wideLine : String := String.ofList (List.replicate maxOutputBytes '\u00e9') ++ "\n"

theorem wideLine_doubled : ¬ KeepsPrefix [wideLine] := by
  have within : Within [] := fun before data after made => absurd made.symm (by simp)
  have none : size [] = 0 := rfl
  have chars : wideLine.toList = List.replicate maxOutputBytes '\u00e9' ++ ['\n'] := by
    rw [wideLine, String.toList_append, String.toList_ofList]
    rfl
  have two : Char.utf8Size '\u00e9' = 2 := rfl
  have positive : 0 < maxOutputBytes := by decide
  have long : maxOutputBytes < size ([] ++ [wideLine]) := by
    rw [List.nil_append, size, total_singleton, chars, Clip.weight_append, Clip.weight_replicate, two]
    omega
  rw [← List.nil_append [wideLine], keepsPrefix_cut_iff within positive long, none, Nat.sub_zero, chars,
    List.take_left' (List.length_replicate ..), Clip.weight_replicate, two]
  omega

end Daemon.Shell
