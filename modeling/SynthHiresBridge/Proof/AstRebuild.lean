import SynthHiresBridge.Data.SpliceOrder
import SynthHiresBridge.Data.CharBoundary
import SynthHiresBridge.Proof.WorkspaceRuns

namespace Daemon.AstOps

open Posix FileSystem

def refusal : DaemonError :=
  .protocol "ast_edit: overlapping or out-of-bounds edit computed"

/-- An edit of bytes replaces a range. -/
def spliceOf (edit : ByteEdit) : Splice.Edit UInt8 :=
  ⟨edit.position, edit.position + edit.deletedLength, Text.encode (Text.lossy edit.insertedText)⟩

/-- A part of a text is taken, and an end inside a character panics. -/
def slice (source : List UInt8) (start stop : Nat) : Option (List UInt8) :=
  if Text.isCharBoundary source start && Text.isCharBoundary source stop && start ≤ stop then
    some ((source.take stop).drop start)
  else none

/-- The output is rebuilt from parts of the source, each of which is a text. -/
def rebuildSliced (source : List UInt8) (last : Nat) :
    List ByteEdit → Option (Except DaemonError (List UInt8))
  | [] => (slice source last source.length).map .ok
  | edit :: rest =>
      let stop := edit.position + edit.deletedLength
      if edit.position < last || source.length < stop then some (.error refusal)
      else (slice source last edit.position).bind fun part =>
        (rebuildSliced source stop rest).map fun out => out.map fun tail =>
          part ++ Text.encode (Text.lossy edit.insertedText) ++ tail

/-- An edit of the library takes whole characters for a text. -/
structure Possible (source : List UInt8) (edit : ByteEdit) : Prop where
  some : 1 ≤ edit.deletedLength
  text : Text.Whole edit.insertedText
  start : edit.position ≤ source.length → Text.isCharBoundary source edit.position = true
  stop : edit.position + edit.deletedLength ≤ source.length →
    Text.isCharBoundary source (edit.position + edit.deletedLength) = true

/-- No edit is out of bounds and no two overlap. -/
def Fits (source : List UInt8) (edits : List ByteEdit) : Prop :=
  (edits.map spliceOf).Pairwise Splice.Apart ∧
    ∀ edit ∈ edits, edit.position + edit.deletedLength ≤ source.length

instance (source : List UInt8) (edits : List ByteEdit) : Decidable (Fits source edits) :=
  inferInstanceAs (Decidable (_ ∧ _))

/-- The range of an edit with the text as it was computed. -/
def rangeOf (edit : ByteEdit) : Splice.Edit UInt8 :=
  ⟨edit.position, edit.position + edit.deletedLength, edit.insertedText⟩

theorem spliceOf_eq {source : List UInt8} {edit : ByteEdit} (possible : Possible source edit) :
    spliceOf edit = rangeOf edit := by
  obtain ⟨text, same⟩ := possible.text
  rw [spliceOf, rangeOf, ← same, Text.lossy_encode]

theorem isCharBoundary_length (source : List UInt8) :
    Text.isCharBoundary source source.length = true := by
  rw [Text.isCharBoundary]
  split_ifs
  · rfl
  · simp

/-- No part is cut inside a character. -/
theorem rebuildSliced_eq {source : List UInt8} {last : Nat} {edits : List ByteEdit}
    (possible : ∀ edit ∈ edits, Possible source edit) (inside : last ≤ source.length)
    (boundary : Text.isCharBoundary source last = true) :
    rebuildSliced source last edits = some (rebuild source last edits) := by
  induction edits generalizing last with
  | nil =>
      rw [rebuildSliced, rebuild, slice, boundary, isCharBoundary_length, decide_eq_true inside,
        List.take_length]
      rfl
  | cons edit rest ih =>
      obtain ⟨here, later⟩ := List.forall_mem_cons.mp possible
      rw [rebuildSliced, rebuild]
      split_ifs with refused
      · rfl
      · simp only [Bool.or_eq_true, decide_eq_true_eq, not_or, Nat.not_lt] at refused
        obtain ⟨ordered, bounded⟩ := refused
        rw [slice, boundary, here.start (by omega), decide_eq_true ordered,
          ih later bounded (here.stop bounded)]
        rfl

/-- A rebuild succeeds where the edits stand one behind the other, and it applies them from the
last one to the first one. -/
theorem rebuild_ok_iff {source : List UInt8} {last : Nat} {edits : List ByteEdit}
    {out : List UInt8} (inside : last ≤ source.length) : rebuild source last edits = .ok out ↔
      (Splice.Stacked (edits.map spliceOf) ∧
        (∀ edit ∈ edits, last ≤ edit.position ∧
          edit.position + edit.deletedLength ≤ source.length)) ∧
      out = ((edits.map spliceOf).foldr Splice.Edit.apply source).drop last := by
  induction edits generalizing last out with
  | nil =>
      rw [rebuild, Except.ok.injEq, eq_comm]
      exact (and_iff_right ⟨.nil, nofun⟩).symm
  | cons edit rest ih =>
      rw [rebuild]
      split_ifs with refused
      · simp only [Bool.or_eq_true, decide_eq_true_eq] at refused
        refine iff_of_false nofun ?_
        rintro ⟨⟨-, all⟩, -⟩
        have here := all edit (.head _)
        omega
      · simp only [Bool.or_eq_true, decide_eq_true_eq, not_or, Nat.not_lt] at refused
        obtain ⟨ordered, bounded⟩ := refused
        have applied : ∀ {rest : List ByteEdit},
            (∀ other ∈ rest, edit.position + edit.deletedLength ≤ other.position) →
            ((spliceOf edit).apply ((rest.map spliceOf).foldr Splice.Edit.apply source)).drop last =
              (source.take edit.position).drop last ++
                Text.encode (Text.lossy edit.insertedText) ++
                ((rest.map spliceOf).foldr Splice.Edit.apply source).drop
                  (edit.position + edit.deletedLength) := by
          intro rest behind
          have low : ∀ splice ∈ rest.map spliceOf, edit.position ≤ splice.start := by
            intro splice member
            obtain ⟨other, held, rfl⟩ := List.mem_map.mp member
            have after := behind other held
            change edit.position ≤ other.position
            omega
          obtain ⟨kept, long⟩ := Splice.take_foldr low (by omega : edit.position ≤ source.length)
          have room : last ≤ (source.take edit.position).length := by
            rw [List.length_take]
            omega
          rw [Splice.Edit.apply, spliceOf]
          dsimp only
          rw [kept, List.append_assoc, List.drop_append_of_le_length room, List.append_assoc]
        rw [Except.map_ok_iff]
        constructor
        · rintro ⟨tail, done, rfl⟩
          obtain ⟨⟨stacked, all⟩, rfl⟩ := (ih bounded).mp done
          have behind : ∀ other ∈ rest, edit.position + edit.deletedLength ≤ other.position :=
            fun other member => (all other member).1
          refine ⟨⟨?_, ?_⟩, ?_⟩
          · refine List.pairwise_cons.mpr ⟨fun splice member => ?_, stacked⟩
            obtain ⟨other, held, rfl⟩ := List.mem_map.mp member
            exact behind other held
          · refine List.forall_mem_cons.mpr ⟨⟨ordered, bounded⟩, fun other member => ?_⟩
            obtain ⟨after, within⟩ := all other member
            exact ⟨by omega, within⟩
          · exact (applied behind).symm
        · rintro ⟨⟨stacked, all⟩, rfl⟩
          obtain ⟨below, others⟩ := List.pairwise_cons.mp stacked
          obtain ⟨-, later⟩ := List.forall_mem_cons.mp all
          have behind : ∀ other ∈ rest, edit.position + edit.deletedLength ≤ other.position :=
            fun other member => below (spliceOf other) (List.mem_map_of_mem member)
          refine ⟨_, (ih bounded).mpr ⟨⟨others, fun other member => ⟨behind other member,
            (later other member).2⟩⟩, rfl⟩, ?_⟩
          exact (applied behind).symm

theorem rebuild_error {source : List UInt8} {last : Nat} {edits : List ByteEdit}
    {error : DaemonError} (failed : rebuild source last edits = .error error) :
    error = refusal := by
  induction edits generalizing last with
  | nil => cases failed
  | cons edit rest ih =>
      rw [rebuild] at failed
      split_ifs at failed
      · exact (Except.error.inj failed).symm
      · cases later : rebuild source (edit.position + edit.deletedLength) rest with
        | error other =>
            rw [later] at failed
            obtain rfl := Except.error.inj failed
            exact ih later
        | ok tail =>
            rw [later] at failed
            cases failed

/-- Sorted edits that take something stand one behind the other where no two overlap. -/
theorem stacked_iff_apart {edits : List ByteEdit}
    (sorted : edits.Pairwise fun first second => first.position ≤ second.position)
    (some : ∀ edit ∈ edits, 1 ≤ edit.deletedLength) :
    Splice.Stacked (edits.map spliceOf) ↔ (edits.map spliceOf).Pairwise Splice.Apart := by
  rw [Splice.Stacked, List.pairwise_map, List.pairwise_map]
  constructor
  · exact List.Pairwise.imp fun behind => .inl behind
  · intro apart
    refine (sorted.and apart).imp_of_mem fun {first second} one other both => ?_
    obtain ⟨order, before | after⟩ := both
    · exact before
    · have taken := some second other
      change second.position + second.deletedLength ≤ first.position at after
      omega

/-- A rebuild in the order of the positions replaces all ranges at once, or it is refused. -/
theorem rebuild_sorted_iff {source out : List UInt8} {edits : List ByteEdit}
    (possible : ∀ edit ∈ edits, Possible source edit) :
    rebuild source 0 (edits.insertionSort fun first second => first.position ≤ second.position) =
        .ok out ↔
      Fits source edits ∧ out = Splice.together (edits.map rangeOf) source := by
  rw [← List.map_congr_left fun edit member => spliceOf_eq (possible edit member)]
  let sorted := edits.insertionSort fun first second => first.position ≤ second.position
  have perm : sorted.Perm edits := List.perm_insertionSort _ edits
  have order : sorted.Pairwise fun first second => first.position ≤ second.position :=
    List.pairwise_insertionSort _ edits
  have some : ∀ edit ∈ sorted, 1 ≤ edit.deletedLength :=
    fun edit member => (possible edit (perm.mem_iff.mp member)).some
  have apart : (sorted.map spliceOf).Pairwise Splice.Apart ↔
      (edits.map spliceOf).Pairwise Splice.Apart :=
    (perm.map spliceOf).pairwise_iff fun {_ _} => Splice.Apart.symm
  have bounds : (∀ edit ∈ sorted, 0 ≤ edit.position ∧
        edit.position + edit.deletedLength ≤ source.length) ↔
      ∀ edit ∈ edits, edit.position + edit.deletedLength ≤ source.length := by
    refine forall_congr' fun edit => ?_
    rw [perm.mem_iff, and_iff_right (Nat.zero_le _)]
  rw [rebuild_ok_iff (Nat.zero_le _), stacked_iff_apart order some, apart, bounds, List.drop_zero]
  refine and_congr_right fun fits => ?_
  obtain ⟨separate, within⟩ := fits
  have stacked := (stacked_iff_apart order some).mpr (apart.mpr separate)
  rw [Splice.foldr_apply stacked]
  · rw [Splice.together_perm (perm.map spliceOf) (apart.mpr separate)]
    intro splice member
    obtain ⟨edit, held, rfl⟩ := List.mem_map.mp member
    have taken := some edit held
    change edit.position < edit.position + edit.deletedLength
    omega
  · intro splice member
    obtain ⟨edit, held, rfl⟩ := List.mem_map.mp member
    exact ⟨Nat.le_add_right _ _, within edit (perm.mem_iff.mp held)⟩

/-- A request has the right to its file, in a language and with a pattern that are known. -/
structure Reads (host : Host) (gate : CapabilityGate) (fs : FileSystem) (req : AstEditRequest)
    (source : String) : Prop where
  granted : ensurePath gate "desktop.fs.write" req.path = .ok ()
  known : host.astLanguage req.language req.path req.pattern = .ok ()
  text : readToString fs req.path = .ok source

/-- The edits that the library computes for a request. -/
def editsFor (host : Host) (req : AstEditRequest) (source : String) : List ByteEdit :=
  host.astReplaceAll req.language req.path req.pattern req.replacement source

/-- What is written goes to a sibling, over the file, and is read back. -/
def save (fs : FileSystem) (path : PathBuf) (replacements : Nat) (out : List UInt8) :
    Except DaemonError AstEditResult × FileSystem :=
  match replaceViaTmp fs path out with
  | (.error (.writing errno), written) => (.error (.ofErrno errno), written)
  | (.error (.renaming _), written) => (.error (.protocol "ast_edit: rename failed"), written)
  | (.ok _, written) => match written.read path with
    | .error errno => (.error (.ofErrno errno), written)
    | .ok back => (.ok ⟨replacements, back.length, back == out⟩, written)

/-- An edit is refused before anything is written, or it writes all replacements at once. -/
structure Rebuilds (host : Host) (gate : CapabilityGate) (fs : FileSystem) (req : AstEditRequest)
    (source : String) (edits : List ByteEdit) (out : List UInt8) : Prop where
  calm : rebuildSliced (Text.encode source) 0 (edits.insertionSort fun first second =>
      first.position ≤ second.position) =
    some (if Fits (Text.encode source) edits then .ok out else .error refusal)
  idle : edits = [] → edit host gate fs req = (.ok ⟨0, source.utf8ByteSize, true⟩, fs)
  refused : ¬ Fits (Text.encode source) edits → edit host gate fs req = (.error refusal, fs)
  saved : Fits (Text.encode source) edits → edits ≠ [] →
    edit host gate fs req = save fs (.ofText req.path) edits.length out
  written : Fits (Text.encode source) edits → edits ≠ [] →
    LspOps.Steady fs [.ofText req.path] → ∃ after,
      edit host gate fs req = (.ok ⟨edits.length, out.length, true⟩, after) ∧
        after.read (.ofText req.path) = .ok out

section Edit

variable {host : Host} {gate : CapabilityGate} {fs : FileSystem} {req : AstEditRequest}
  {source : String}

theorem plan_of_reads (reads : Reads host gate fs req source) : plan host gate fs req =
    (rebuild (Text.encode source) 0 ((editsFor host req source).insertionSort
      fun first second => first.position ≤ second.position)).map fun out =>
        ⟨(editsFor host req source).length, (Text.encode source).length, out⟩ := by
  obtain ⟨bytes, read⟩ := read_of_readToString reads.text
  have file := metadata_of_read fs (.ofText req.path) bytes read
  rw [plan, reads.granted, file]
  simp only [Except.bind, reads.known, reads.text]
  rfl

theorem save_steady {path : PathBuf} {old : List UInt8} (read : fs.read path = .ok old)
    (steady : LspOps.Steady fs [path]) (replacements : Nat) (out : List UInt8) : ∃ after,
      save fs path replacements out = (.ok ⟨replacements, out.length, true⟩, after) ∧
        after.read path = .ok out := by
  obtain ⟨entry, target⟩ := Stands.of_read read
  have reads : ∀ other ∈ [path], ∃ bytes, fs.read other = .ok bytes := by
    rw [List.forall_mem_singleton]
    exact ⟨old, read⟩
  obtain ⟨after, done, -, back, -⟩ := (LspOps.Amid.start reads steady).step reads steady
    (List.mem_singleton_self path) target.lands out
  refine ⟨after, ?_, back⟩
  rw [save, done]
  simp only [back, beq_self_eq_true]

end Edit

/-- The library replaces the third letter and then the first one. -/
def lettersEdits : List ByteEdit := [⟨2, 1, [89]⟩, ⟨0, 1, [88]⟩]

def lettersHost : Host := { Host.quiet with astReplaceAll := fun _ _ _ _ _ => lettersEdits }

def letters : FileSystem :=
  (FileSystem.empty.put ["w"] .dir).put ["w", "a.rs"] (.file [97, 98, 99])

def lettersRequest : AstEditRequest := ⟨"/w/a.rs", "$A", "$A", none⟩

end Daemon.AstOps
