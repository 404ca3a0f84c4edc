import SynthHiresBridge.Data.CharBoundary
import SynthHiresBridge.Data.SpliceOrder
import SynthHiresBridge.Proof.LspPositions
import SynthHiresBridge.Proof.WorkspacePlan

namespace List.Forall₂

variable {First Second : Type*} {Related : First → Second → Prop} {firsts : List First}
  {seconds : List Second}

theorem exists_left (all : Forall₂ Related firsts seconds) {second : Second}
    (member : second ∈ seconds) : ∃ first ∈ firsts, Related first second := by
  induction all with
  | nil => cases member
  | cons here _ ih =>
      rcases List.mem_cons.mp member with rfl | later
      · exact ⟨_, List.mem_cons_self, here⟩
      · obtain ⟨first, held, related⟩ := ih later
        exact ⟨first, List.mem_cons_of_mem _ held, related⟩

theorem exists_right (all : Forall₂ Related firsts seconds) {first : First}
    (member : first ∈ firsts) : ∃ second ∈ seconds, Related first second :=
  exists_left all.flip member

end List.Forall₂

/-- Partners of all items make a list of partners. -/
theorem List.exists_forall₂ {First Second : Type*} {Related : First → Second → Prop}
    {firsts : List First} (each : ∀ first ∈ firsts, ∃ second, Related first second) :
    ∃ seconds, List.Forall₂ Related firsts seconds := by
  induction firsts with
  | nil => exact ⟨[], .nil⟩
  | cons first rest ih =>
      obtain ⟨⟨second, here⟩, others⟩ := List.forall_mem_cons.mp each
      obtain ⟨seconds, later⟩ := ih others
      exact ⟨second :: seconds, .cons here later⟩

namespace Daemon.LspOps

open Json Posix

/-- A range replaces bytes of its source. -/
def RangeEdit.edit (range : RangeEdit) : Splice.Edit UInt8 :=
  ⟨range.start, range.stop, Text.encode range.text⟩

def PlannedFile.edits (file : PlannedFile) : List (Splice.Edit UInt8) :=
  file.ranges.map RangeEdit.edit

/-- The rewriting stops with a panic where a range cuts a character of the text so far. -/
def rewrittenChecked (file : PlannedFile) : Option (List UInt8) :=
  let order := (file.ranges.insertionSort fun first second => first.start ≤ second.start).reverse
  order.foldlM (fun out range => Text.replaceRange out range.start range.stop range.text)
    (Text.encode file.source)

theorem sorted_edits (file : PlannedFile) :
    (file.ranges.insertionSort fun first second => first.start ≤ second.start).map RangeEdit.edit =
      file.edits.insertionSort fun first second => first.start ≤ second.start :=
  List.map_insertionSort _ _ RangeEdit.edit file.ranges fun _ _ _ _ => Iff.rfl

/-- The ranges of a file are applied from the last one to the first one. -/
theorem rewritten_eq_foldr (file : PlannedFile) : rewritten file =
    (file.edits.insertionSort fun first second => first.start ≤ second.start).foldr
      Splice.Edit.apply (Text.encode file.source) := by
  rw [rewritten, List.foldl_reverse, ← sorted_edits, List.foldr_map]
  rfl

theorem rangeEdit_ok {uri source : String} {edit : Value} {range : RangeEdit}
    (done : rangeEdit uri source edit = .ok range) :
    range.edit.Within (Text.encode source).length ∧
      range = ⟨linecolToByte source (position edit ["range", "start", "line"])
          (position edit ["range", "start", "character"]),
        linecolToByte source (position edit ["range", "end", "line"])
          (position edit ["range", "end", "character"]),
        ((edit.get "newText").bind Value.asStr).getD ""⟩ := by
  rw [rangeEdit] at done
  simp only [Bool.or_eq_true, decide_eq_true_eq] at done
  split_ifs at done with invalid
  obtain rfl := Except.ok.inj done
  rw [not_or, Nat.not_lt, Nat.not_lt] at invalid
  exact ⟨invalid, rfl⟩

theorem Planned.within {gate : CapabilityGate} {fs : FileSystem} {target : String × List Value}
    {file : PlannedFile} (planned : Planned gate fs target file) :
    ∀ edit ∈ file.edits, edit.Within (Text.encode file.source).length := by
  intro edit member
  obtain ⟨range, held, rfl⟩ := List.mem_map.mp member
  obtain ⟨item, -, done⟩ := planned.ranges.exists_left held
  exact (rangeEdit_ok done).1

/-- Ranges that overlap nowhere in their order are stacked. -/
theorem overlapping_eq_false_iff {ranges : List RangeEdit}
    (ordered : ∀ range ∈ ranges, range.start ≤ range.stop) :
    overlapping ranges = false ↔ ranges.Pairwise fun lower upper => lower.stop ≤ upper.start := by
  induction ranges with
  | nil => exact iff_of_true rfl .nil
  | cons first rest ih =>
      obtain ⟨-, others⟩ := List.forall_mem_cons.mp ordered
      rw [List.pairwise_cons, ← ih others]
      cases rest with
      | nil => exact iff_of_true rfl ⟨List.forall_mem_nil _, rfl⟩
      | cons second rest =>
          rw [overlapping, Bool.or_eq_false_iff, decide_eq_false_iff_not, Nat.not_lt]
          constructor
          · rintro ⟨next, clear⟩
            refine ⟨List.forall_mem_cons.mpr ⟨next, fun other member => ?_⟩, clear⟩
            have stacked := (List.pairwise_cons.mp ((ih others).mp clear)).1 other member
            have upward := (List.forall_mem_cons.mp others).1
            omega
          · exact fun ⟨above, clear⟩ => ⟨(List.forall_mem_cons.mp above).1, clear⟩

/-- Ranges overlap in the checked order exactly where two of them have something in common. -/
theorem not_overlaps_iff {file : PlannedFile}
    (ordered : ∀ range ∈ file.ranges, range.start ≤ range.stop) :
    ¬Overlaps file ↔ file.edits.Pairwise Splice.Apart := by
  have total : Std.Total rangeBefore := by
    refine ⟨fun first second => ?_⟩
    unfold rangeBefore
    omega
  have trans : IsTrans RangeEdit rangeBefore := by
    refine ⟨fun first second third => ?_⟩
    unfold rangeBefore
    omega
  let sorted := file.ranges.insertionSort rangeBefore
  have perm : sorted.Perm file.ranges := List.perm_insertionSort rangeBefore file.ranges
  have upward : ∀ range ∈ sorted, range.start ≤ range.stop :=
    fun range member => ordered range (perm.mem_iff.mp member)
  have listed : sorted.Pairwise rangeBefore := List.pairwise_insertionSort rangeBefore file.ranges
  have edits : file.edits.Pairwise Splice.Apart ↔
      sorted.Pairwise fun first second => Splice.Apart first.edit second.edit := by
    rw [PlannedFile.edits, List.pairwise_map, perm.pairwise_iff Splice.Apart.symm]
  rw [Overlaps, Bool.not_eq_true, overlapping_eq_false_iff upward, edits]
  constructor
  · exact fun stacked => stacked.imp fun above => .inl above
  · intro apart
    refine (apart.and listed).imp_of_mem fun lowIn highIn both => ?_
    obtain ⟨apart, order⟩ := both
    have first := upward _ lowIn
    have second := upward _ highIn
    simp only [Splice.Apart, RangeEdit.edit] at apart
    rw [rangeBefore] at order
    omega

/-- The protocol's reading of a text edit. -/
def lspEdit (source : String) (edit : Value) : Splice.Edit UInt8 :=
  ⟨lspOffset source (position edit ["range", "start", "line"])
      (position edit ["range", "start", "character"]),
    lspOffset source (position edit ["range", "end", "line"])
      (position edit ["range", "end", "character"]),
    Text.encode (((edit.get "newText").bind Value.asStr).getD "")⟩

/-- Both positions of a text edit have columns in their lines. -/
def EditInLine (source : String) (edit : Value) : Prop :=
  InLine source (position edit ["range", "start", "line"])
      (position edit ["range", "start", "character"]) ∧
    InLine source (position edit ["range", "end", "line"])
      (position edit ["range", "end", "character"])

/-- A position that is converted as the protocol asks stands between two characters. -/
theorem whole_take_lspOffset (source : String) (line character : Nat) :
    Text.Whole ((Text.encode source).take (lspOffset source line character)) := by
  obtain ⟨front, rest, split, offset⟩ := (lspOffset_converts source line character).boundary
  refine ⟨String.ofList front, ?_⟩
  have bytes : Text.encode source = front.flatMap String.utf8EncodeChar ++
      rest.flatMap String.utf8EncodeChar := by
    rw [Text.encode, split, List.flatMap_append]
  have length : (front.flatMap String.utf8EncodeChar).length = byteLength front := rfl
  rw [bytes, offset, List.take_left' length, Text.encode, String.toList_ofList]

/-- A range of columns in their lines is the one that the protocol reads. -/
theorem rangeEdit_eq_lspEdit {uri source : String} {edit : Value} {range : RangeEdit}
    (done : rangeEdit uri source edit = .ok range) (inLine : EditInLine source edit) :
    range.edit = lspEdit source edit := by
  obtain ⟨-, rfl⟩ := rangeEdit_ok done
  rw [lspEdit, ← (linecolToByte_eq_lspOffset_iff source _ _).mpr inLine.1,
    ← (linecolToByte_eq_lspOffset_iff source _ _).mpr inLine.2]
  rfl

/-- A planned file has the edits that the protocol reads in its target. -/
theorem Planned.edits {gate : CapabilityGate} {fs : FileSystem} {target : String × List Value}
    {file : PlannedFile} (planned : Planned gate fs target file)
    (inLine : ∀ item ∈ target.2, EditInLine file.source item) :
    file.edits = target.2.map (lspEdit file.source) := by
  rw [PlannedFile.edits]
  have converted := planned.ranges
  generalize target.2 = items at converted inLine
  generalize file.ranges = ranges at converted
  induction converted with
  | nil => rfl
  | cons done _ ih =>
      obtain ⟨here, others⟩ := List.forall_mem_cons.mp inLine
      rw [List.map_cons, List.map_cons, rangeEdit_eq_lspEdit done here, ih others]

/-- A range that may be cut is replaced without a panic. -/
theorem replaceRange_of_cuts {bytes : List UInt8} {range : RangeEdit}
    (ordered : range.start ≤ range.stop) (cuts : range.edit.Cuts Text.Whole bytes) :
    Text.replaceRange bytes range.start range.stop range.text = some (range.edit.apply bytes) := by
  have start := Text.isCharBoundary_of_drop (Nat.le_trans ordered cuts.long) cuts.start
  have stop := Text.isCharBoundary_of_drop cuts.long cuts.stop
  have check : (Text.isCharBoundary bytes range.start && Text.isCharBoundary bytes range.stop &&
      decide (range.start ≤ range.stop)) = true := by
    rw [Bool.and_eq_true, Bool.and_eq_true]
    exact ⟨⟨start, stop⟩, decide_eq_true ordered⟩
  rw [Text.replaceRange, if_pos check]
  rfl

theorem foldrM_replaceRange {order : List RangeEdit} {bytes : List UInt8}
    (ordered : ∀ range ∈ order, range.start ≤ range.stop)
    (cuts : ∀ edit rest, edit :: rest <:+ order.map RangeEdit.edit →
      edit.Cuts Text.Whole (rest.foldr Splice.Edit.apply bytes)) :
    order.foldrM (fun range out => Text.replaceRange out range.start range.stop range.text) bytes =
      some ((order.map RangeEdit.edit).foldr Splice.Edit.apply bytes) := by
  induction order with
  | nil => rfl
  | cons range order ih =>
      obtain ⟨here, others⟩ := List.forall_mem_cons.mp ordered
      have own := cuts range.edit (order.map RangeEdit.edit) (List.suffix_refl _)
      have later := ih others fun edit rest suffix =>
        cuts edit rest (suffix.trans (List.suffix_cons _ _))
      rw [List.foldrM_cons, later]
      exact replaceRange_of_cuts here own

/-- A file whose edits are in order is rewritten without a panic. -/
theorem rewrittenChecked_of_inOrder {gate : CapabilityGate} {fs : FileSystem}
    {target : String × List Value} {file : PlannedFile} (planned : Planned gate fs target file)
    (inLine : ∀ item ∈ target.2, EditInLine file.source item) (apart : ¬Overlaps file)
    (inOrder : Splice.InOrder (Text.encode file.source) file.edits) :
    rewrittenChecked file = some (rewritten file) := by
  have ordered : ∀ range ∈ file.ranges, range.start ≤ range.stop := fun range member =>
    (planned.within range.edit (List.mem_map_of_mem member)).1
  have within := planned.within
  have cut : ∀ edit ∈ file.edits, Text.Whole ((Text.encode file.source).take edit.start) ∧
      Text.Whole ((Text.encode file.source).take edit.stop) ∧ Text.Whole edit.items := by
    intro edit member
    rw [planned.edits inLine] at member
    obtain ⟨item, -, rfl⟩ := List.mem_map.mp member
    exact ⟨whole_take_lspOffset _ _ _, whole_take_lspOffset _ _ _, ⟨_, rfl⟩⟩
  let order := file.ranges.insertionSort fun first second => first.start ≤ second.start
  have perm : order.Perm file.ranges := List.perm_insertionSort _ file.ranges
  have members : ∀ edit ∈ order.map RangeEdit.edit, edit ∈ file.edits :=
    fun edit member => (perm.map RangeEdit.edit).mem_iff.mp member
  have sorted : (order.map RangeEdit.edit).Pairwise
      fun lower upper => lower.start ≤ upper.start := by
    rw [List.pairwise_map]
    exact List.pairwise_insertionSort _ file.ranges
  have disjoint : (order.map RangeEdit.edit).Pairwise Splice.Apart :=
    ((perm.map RangeEdit.edit).pairwise_iff Splice.Apart.symm).mpr
      ((not_overlaps_iff ordered).mp apart)
  have listed : Splice.InOrder (Text.encode file.source) (order.map RangeEdit.edit) := by
    rw [sorted_edits, Splice.InOrder.congr (Splice.groupAt_insertionSort file.edits)]
    exact inOrder
  have whole : Text.Whole (Text.encode file.source) := ⟨file.source, rfl⟩
  obtain ⟨-, cuts⟩ := Splice.cuts_of_inOrder Text.Whole.append Text.Whole.leaves whole sorted
    disjoint
    (fun edit member => within edit (members edit member))
    (fun edit member => (cut edit (members edit member)).1)
    (fun edit member => (cut edit (members edit member)).2.1)
    (fun edit member => (cut edit (members edit member)).2.2) listed
  have upward : ∀ range ∈ order, range.start ≤ range.stop :=
    fun range member => ordered range (perm.mem_iff.mp member)
  rw [rewrittenChecked, rewritten_eq_foldr, ← sorted_edits, List.foldlM_reverse]
  exact foldrM_replaceRange upward cuts

/-- A file is rewritten as if by all its edits together exactly where they are in order. -/
theorem rewritten_eq_together_iff {gate : CapabilityGate} {fs : FileSystem}
    {target : String × List Value} {file : PlannedFile} (planned : Planned gate fs target file)
    (apart : ¬Overlaps file) :
    rewritten file = Splice.together file.edits (Text.encode file.source) ↔
      Splice.InOrder (Text.encode file.source) file.edits := by
  have ordered : ∀ range ∈ file.ranges, range.start ≤ range.stop := fun range member =>
    (planned.within range.edit (List.mem_map_of_mem member)).1
  rw [rewritten_eq_foldr]
  exact Splice.foldr_sorted_iff ((not_overlaps_iff ordered).mp apart) planned.within

end Daemon.LspOps
