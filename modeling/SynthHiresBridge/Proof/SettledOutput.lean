import SynthHiresBridge.Proof.OutputBuffer

namespace Daemon.Pty

/-- The buffer before a wait and after each of its slices, with the chunks that arrive in a slice.
The deadline has passed after some slice. -/
structure Timeline where
  buffers : Nat → BufferState
  chunks : Nat → List String
  pushed : ∀ slice, (chunks (slice + 1)).foldlM BufferState.push (buffers slice) =
    .ok (buffers (slice + 1))
  deadline : Nat
  positive : 1 ≤ deadline

namespace Timeline

variable (timeline : Timeline)

def pendingAt (slice : Nat) : Bool := (timeline.buffers slice).pending

/-- The slice at which the loop ends. -/
def ending : Nat := waitLoop timeline.pendingAt timeline.deadline

def Silent (slice : Nat) : Prop := timeline.chunks slice = []

/-- Nothing arrived in the last two slices. -/
def Settles (slice : Nat) : Prop :=
  2 ≤ slice ∧ timeline.Silent (slice - 1) ∧ timeline.Silent slice

/-- A slice is the first one after two silent ones, or the one of the deadline if that is first. -/
def Returns (slice : Nat) : Prop :=
  slice ≤ timeline.deadline ∧ (timeline.Settles slice ∨ slice = timeline.deadline) ∧
    ∀ earlier < slice, ¬ timeline.Settles earlier

/-- The buffer is empty, and what arrives in the first two slices is not shown. -/
def Blank : Prop :=
  timeline.pendingAt 0 = false ∧
    ∀ chunk ∈ timeline.chunks 1 ++ timeline.chunks 2, scrubAnsi chunk = []

end Timeline

theorem pending_eq_false_iff {buffer : BufferState} :
    buffer.pending = false ↔ buffer.lines = [] ∧ buffer.partialLine = [] := by
  rw [BufferState.pending, decide_eq_false_iff_not, not_or, not_not, not_not]

/-- The newest line stays in the ring. -/
theorem evict_pending {buffer next : BufferState} (some : buffer.lines ≠ [])
    (done : buffer.evict = .ok next) : next.lines ≠ [] := by
  rw [BufferState.evict] at done
  split_ifs at done with full
  · dsimp only at done
    split_ifs at done
    obtain rfl := Except.ok.inj done
    have positive : 0 < ringLines := by decide
    apply List.ne_nil_of_length_pos
    rw [List.length_drop]
    omega
  · obtain rfl := Except.ok.inj done
    exact some

theorem pushChar_pending {buffer next : BufferState} {char : Char}
    (done : buffer.pushChar char = .ok next) : next.pending = true := by
  by_contra none
  obtain ⟨noLines, noPart⟩ := pending_eq_false_iff.mp (Bool.eq_false_iff.mpr none)
  rw [BufferState.pushChar] at done
  split_ifs at done
  · have added (line : List Char) : buffer.lines ++ [line] ≠ [] := List.concat_ne_nil _ _
    exact evict_pending (added _) done noLines
  · obtain rfl := Except.ok.inj done
    exact List.concat_ne_nil _ _ noPart

theorem pushChars_pending {buffer next : BufferState} {chars : List Char}
    (done : buffer.pushChars chars = .ok next) :
    next.pending = false ↔ buffer.pending = false ∧ chars = [] := by
  cases chars using List.reverseRecOn with
  | nil =>
      obtain rfl := Except.ok.inj done
      exact (and_iff_left rfl).symm
  | append_singleton front char =>
      obtain ⟨middle, -, last⟩ := Except.foldlM_concat_ok_iff.mp done
      rw [pushChar_pending last]
      exact iff_of_false (Bool.noConfusion) fun both => List.concat_ne_nil _ _ both.2

/-- A cut leaves something of the line. -/
theorem capPartial_pending {buffer next : BufferState} (done : buffer.capPartial = .ok next) :
    next.pending = false ↔ buffer.pending = false := by
  rw [BufferState.capPartial] at done
  split_ifs at done with large
  · obtain ⟨rest, cut, rfl⟩ := Except.map_ok_iff.mp done
    obtain ⟨front, made, short⟩ := drainFront_ok_iff.mp cut
    have positive : 0 < partialBytes := by decide
    have kept : rest ≠ [] := by
      rintro rfl
      rw [List.append_nil] at made
      rw [made] at short large
      omega
    have before : buffer.partialLine ≠ [] := by
      rw [made]
      exact List.append_ne_nil_of_right_ne_nil _ kept
    rw [pending_eq_false_iff, pending_eq_false_iff]
    exact iff_of_false (fun both => kept both.2) fun both => before both.2
  · obtain rfl := Except.ok.inj done
    rfl

/-- A buffer has something after a push when it had something before or the push shows something. -/
theorem push_pending {buffer next : BufferState} {chunk : String}
    (done : buffer.push chunk = .ok next) :
    next.pending = false ↔ buffer.pending = false ∧ scrubAnsi chunk = [] := by
  obtain ⟨middle, shown, cut⟩ := Except.bind_ok_iff.mp done
  rw [capPartial_pending cut, pushChars_pending shown]

theorem pushes_pending {buffer next : BufferState} {chunks : List String}
    (done : chunks.foldlM BufferState.push buffer = .ok next) :
    next.pending = false ↔ buffer.pending = false ∧ ∀ chunk ∈ chunks, scrubAnsi chunk = [] := by
  induction chunks using List.reverseRecOn generalizing next with
  | nil =>
      obtain rfl := Except.ok.inj done
      exact (and_iff_left nofun).symm
  | append_singleton front chunk ih =>
      obtain ⟨middle, before, last⟩ := Except.foldlM_concat_ok_iff.mp done
      rw [push_pending last, ih before, List.forall_mem_append, List.forall_mem_singleton, and_assoc]

/-- A loop that has seen something in the buffer waits for the deadline, as it stays there. -/
theorem waitFrom_pending {pending : Nat → Bool} {slice : Nat}
    (always : ∀ later, slice < later → pending later = true) (left quiet : Nat) :
    waitFrom pending left slice true quiet = slice + left := by
  induction left generalizing slice quiet with
  | zero => rfl
  | succ left ih =>
      rw [waitFrom, always (slice + 1) (Nat.lt_succ_self slice)]
      refine (ih (fun later after => always later (Nat.lt_of_succ_lt after)) 0).trans ?_
      omega

namespace Timeline

variable (timeline : Timeline)

theorem pendingAt_succ (slice : Nat) : timeline.pendingAt (slice + 1) = false ↔
    timeline.pendingAt slice = false ∧
      ∀ chunk ∈ timeline.chunks (slice + 1), scrubAnsi chunk = [] :=
  pushes_pending (timeline.pushed slice)

theorem blank_iff : timeline.Blank ↔ timeline.pendingAt 2 = false := by
  rw [Blank, timeline.pendingAt_succ 1, timeline.pendingAt_succ 0, List.forall_mem_append, and_assoc]

theorem pendingAt_later {slice : Nat} (some : timeline.pendingAt slice = true) (more : Nat) :
    timeline.pendingAt (slice + more) = true := by
  induction more with
  | zero => exact some
  | succ more ih =>
      rw [← Bool.not_eq_false, ← Nat.add_assoc, timeline.pendingAt_succ, ih]
      exact fun both => Bool.noConfusion both.1

theorem waits {slice : Nat} (some : timeline.pendingAt slice = true) (left quiet : Nat) :
    waitFrom timeline.pendingAt left slice true quiet = slice + left := by
  apply waitFrom_pending
  intro later after
  obtain ⟨more, rfl⟩ := Nat.exists_eq_add_of_lt after
  rw [Nat.add_assoc]
  exact timeline.pendingAt_later some (more + 1)

/-- The loop ends at the second slice of an empty buffer, or it waits for the deadline. -/
theorem ending_of_empty (empty : timeline.pendingAt 2 = false) :
    timeline.ending = min 2 timeline.deadline := by
  obtain ⟨next, -⟩ := (timeline.pendingAt_succ 1).mp empty
  obtain ⟨first, -⟩ := (timeline.pendingAt_succ 0).mp next
  obtain ⟨left, made⟩ := Nat.exists_eq_add_of_le' timeline.positive
  rw [ending, waitLoop, made, waitFrom, first, next]
  cases left with
  | zero => rfl
  | succ left =>
      have enough : 2 ≤ left + 1 + 1 := Nat.le_add_left 2 left
      rw [Nat.min_eq_left enough]
      change waitFrom timeline.pendingAt (left + 1) 1 false 1 = 2
      rw [waitFrom, empty]
      rfl

theorem ending_of_some (some : timeline.pendingAt 2 = true) :
    timeline.ending = timeline.deadline := by
  obtain ⟨left, made⟩ := Nat.exists_eq_add_of_le' timeline.positive
  rw [ending, waitLoop, made]
  cases first : timeline.pendingAt 0 with
  | true => rw [timeline.waits first, Nat.zero_add]
  | false =>
      rw [waitFrom]
      cases next : timeline.pendingAt (0 + 1) with
      | true =>
          refine (timeline.waits next left 0).trans ?_
          omega
      | false =>
          cases left with
          | zero => rfl
          | succ left =>
              change waitFrom timeline.pendingAt (left + 1) 1 false 1 = _
              rw [waitFrom, some]
              refine (timeline.waits some left 1).trans ?_
              omega

/-- A command returns once output settles, when the buffer stays empty through the first two slices
and they are silent, or when the output does not settle before the deadline. -/
theorem returns_ending_iff : timeline.Returns timeline.ending ↔
    (timeline.Blank → timeline.deadline ≤ 2 ∨ timeline.Settles 2) ∧
      (¬ timeline.Blank → ∀ slice < timeline.deadline, ¬ timeline.Settles slice) := by
  have early (slice : Nat) (before : slice < 2) : ¬ timeline.Settles slice :=
    fun settled => absurd settled.1 (Nat.not_le_of_lt before)
  rw [timeline.blank_iff]
  cases shown : timeline.pendingAt 2 with
  | true =>
      rw [timeline.ending_of_some shown]
      constructor
      · exact fun returns => ⟨Bool.noConfusion, fun _ => returns.2.2⟩
      · exact fun both => ⟨Nat.le_refl _, .inr rfl, both.2 Bool.noConfusion⟩
  | false =>
      rw [timeline.ending_of_empty shown]
      constructor
      · rintro ⟨-, settled, -⟩
        refine ⟨fun _ => ?_, fun other => absurd rfl other⟩
        rcases Nat.le_total timeline.deadline 2 with soon | late
        · exact .inl soon
        · rw [Nat.min_eq_left late] at settled
          rcases settled with settled | same
          · exact .inr settled
          · exact .inl (Nat.le_of_eq same.symm)
      · rintro ⟨quiet, -⟩
        refine ⟨Nat.min_le_right _ _, ?_, fun slice before => ?_⟩
        · rcases Nat.le_total timeline.deadline 2 with soon | late
          · exact .inr (Nat.min_eq_right soon)
          · rw [Nat.min_eq_left late]
            rcases quiet rfl with soon | settled
            · exact .inr (Nat.le_antisymm late soon)
            · exact .inl settled
        · exact early slice (Nat.lt_of_lt_of_le before (Nat.min_le_left _ _))

end Timeline

/-- A prompt is in the buffer, and nothing comes for ten seconds. -/
def promptOnly : Timeline where
  buffers _ := ⟨[], ['$', ' '], 0⟩
  chunks _ := []
  pushed _ := rfl
  deadline := 67
  positive := by decide

/-- The prompt makes a silent command wait for its whole timeout. -/
theorem promptOnly_waits : promptOnly.ending = 67 ∧ promptOnly.Settles 2 ∧
    ¬ ∀ timeline : Timeline, timeline.Returns timeline.ending := by
  have silent : promptOnly.Settles 2 := ⟨Nat.le_refl 2, rfl, rfl⟩
  have waits : promptOnly.ending = 67 := promptOnly.ending_of_some rfl
  refine ⟨waits, silent, fun all => ?_⟩
  have first := (all promptOnly).2.2 2
  rw [waits] at first
  exact first (by decide) silent

end Daemon.Pty
