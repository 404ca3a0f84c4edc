import SynthHiresBridge.Data.Cut
import SynthHiresBridge.Proof.Base64Exact
import SynthHiresBridge.Proof.PatchTogether

namespace Daemon

open Posix

/-- The digest is sixty-four lower-case hexadecimal digits. -/
structure Host.Hexadecimal (host : Host) : Prop where
  digits : ∀ bytes, ∀ digit ∈ (host.sha256 bytes).toList, digit ∈ "0123456789abcdef".toList
  long : ∀ bytes, (host.sha256 bytes).toList.length = 64

/-- The items of a file that an edit is about. -/
def HashlineEdit.range {Item : Type} (edit : HashlineEdit) (items : List Item) : List Item :=
  (items.take edit.last).drop (edit.first - 1)

theorem HashlineEdit.range_map {Item Other : Type} (edit : HashlineEdit) (change : Item → Other)
    (items : List Item) : edit.range (items.map change) = (edit.range items).map change := by
  rw [range, range, List.map_drop, List.map_take]

theorem HashlineEdit.length_range {Item : Type} (edit : HashlineEdit) (items : List Item) :
    (edit.range items).length = min edit.last items.length - (edit.first - 1) := by
  rw [range, List.length_drop, List.length_take]

/-- A range is whole exactly where it lies inside the file. -/
theorem HashlineEdit.length_range_eq_iff {Item : Type} (edit : HashlineEdit) (items : List Item) :
    (edit.range items).length = edit.last - (edit.first - 1) ↔ edit.last ≤ items.length := by
  have one := edit.first_pos
  have ordered := edit.first_le_last
  rw [edit.length_range]
  omega

namespace FsOps

/-- The hash in a row of an annotated text. -/
def rowHash (row : String) : Option String :=
  (Text.splitOnce hashlinePrefix.toList row.toList).bind fun numbered =>
    (Text.splitOnce hashlinePrefix.toList numbered.2).map fun hashed => String.ofList hashed.1

/-- The hashes that an annotated read shows, from the first line to the last one. -/
def shownHashes (result : FsReadResult) : List String :=
  match Base64.base64Decode result.contentBase64 with
  | none => []
  | some bytes => (linesOf bytes).filterMap rowHash

/-- The hashes that a field lists. -/
def listedHashes (field : String) : List String :=
  ((field.toList.splitOn ',').map fun part => Text.trim (String.ofList part)).filter (· ≠ "")

/-- The hashes of the lines of a file. -/
def hashesOf (host : Host) (bytes : List UInt8) : List String :=
  (linesOf bytes).map (shortHash host)

theorem hexadecimal_solid {text : List Char}
    (digits : ∀ digit ∈ text, digit ∈ "0123456789abcdef".toList) :
    ∀ digit ∈ text, digit ≠ ' ' ∧ digit ≠ '\n' ∧ digit ≠ ',' ∧ Text.isWhitespace digit = false := by
  have solid : ∀ digit ∈ "0123456789abcdef".toList,
      digit ≠ ' ' ∧ digit ≠ '\n' ∧ digit ≠ ',' ∧ Text.isWhitespace digit = false :=
    Text.forall_of_all (by decide)
  exact fun digit member => solid digit (digits digit member)

theorem shortHash_digits {host : Host} (hex : host.Hexadecimal) (line : String) :
    ∀ digit ∈ (shortHash host line).toList, digit ∈ "0123456789abcdef".toList := by
  intro digit member
  rw [shortHash, String.toList_ofList] at member
  exact hex.digits _ digit (List.mem_of_mem_take member)

theorem shortHash_length {host : Host} (hex : host.Hexadecimal) (line : String) :
    (shortHash host line).toList.length = 6 := by
  rw [shortHash, String.toList_ofList, List.length_take, hex.long]
  rfl

/-- The characters of one annotated line. -/
def rowChars (host : Host) (line : String) (index : Nat) : List Char :=
  Nat.toDigits 10 (index + 1) ++ [' ', '|', ' '] ++ (shortHash host line).toList ++
    [' ', '|', ' '] ++ line.toList

theorem digit_solid {index : Nat} {digit : Char} (member : digit ∈ Nat.toDigits 10 index) :
    digit ≠ ' ' ∧ digit ≠ '\n' := by
  have own := Nat.isDigit_of_mem_toDigits (by decide) (by decide) member
  constructor
  · rintro rfl
    exact absurd own (by decide)
  · rintro rfl
    exact absurd own (by decide)

theorem newline_not_mem_rowChars {host : Host} (hex : host.Hexadecimal) {line : String}
    (clean : '\n' ∉ line.toList) (index : Nat) : '\n' ∉ rowChars host line index := by
  intro member
  simp only [rowChars, List.mem_append] at member
  rcases member with (((number | bar) | hash) | bar) | content
  · exact (digit_solid number).2 rfl
  · exact absurd bar (by decide)
  · exact (hexadecimal_solid (shortHash_digits hex line) _ hash).2.1 rfl
  · exact absurd bar (by decide)
  · exact clean content

/-- A row shows its hash, also when a carriage return at its end is taken off. -/
theorem rowHash_rowChars {host : Host} (hex : host.Hexadecimal) (line : String) (index : Nat) :
    rowHash (String.ofList ((Text.stripLast '\r' (rowChars host line index)).getD
      (rowChars host line index))) = some (shortHash host line) := by
  have number : ' ' ∉ Nat.toDigits 10 (index + 1) := fun member => (digit_solid member).1 rfl
  have hash : ' ' ∉ (shortHash host line).toList :=
    fun member => (hexadecimal_solid (shortHash_digits hex line) _ member).1 rfl
  have bar : hashlinePrefix.toList = [' ', '|', ' '] := by decide
  have shown : ∀ content : List Char, rowHash (String.ofList (Nat.toDigits 10 (index + 1) ++
      [' ', '|', ' '] ++ ((shortHash host line).toList ++ [' ', '|', ' '] ++ content))) =
        some (shortHash host line) := by
    intro content
    rw [rowHash, String.toList_ofList, bar, Text.splitOnce_append number, Option.bind_some,
      Text.splitOnce_append hash, Option.map_some, String.ofList_toList]
  have whole : rowChars host line index = Nat.toDigits 10 (index + 1) ++ [' ', '|', ' '] ++
      ((shortHash host line).toList ++ [' ', '|', ' '] ++ line.toList) := by
    simp only [rowChars, List.append_assoc]
  rw [Text.stripLast]
  split_ifs with last
  · rcases List.eq_nil_or_concat' line.toList with empty | ⟨front, final, same⟩
    · rw [whole, empty, List.append_nil, ← List.append_assoc, List.getLast?_append] at last
      have space : some ' ' = some '\r' := last
      exact absurd space (by decide)
    · rw [whole, same, ← List.append_assoc, ← List.append_assoc, List.dropLast_concat,
        List.append_assoc]
      exact shown front
  · rw [Option.getD_none, whole]
    exact shown line.toList

theorem annotateContent_eq (host : Host) (content : String) : annotateContent host content =
    String.ofList (((Text.lines content).zipIdx.map fun (line, index) =>
      rowChars host line index).flatMap (· ++ ['\n'])) := by
  apply String.toList_inj.mp
  have bar : hashlinePrefix.toList = [' ', '|', ' '] := by decide
  have newline : "\n".toList = ['\n'] := by decide
  have number : ∀ index : Nat, (toString index).toList = Nat.toDigits 10 index :=
    fun _ => String.toList_ofList
  rw [annotateContent, String.toList_join, String.toList_ofList, List.flatMap_map, List.flatMap_map]
  apply List.flatMap_congr
  intro numbered _
  simp only [String.toList_append, bar, newline, number, rowChars]

theorem rowHashes_rowChars {host : Host} (hex : host.Hexadecimal)
    {numbered : List (String × Nat)} (clean : ∀ row ∈ numbered, '\n' ∉ row.1.toList) :
    (Text.lines (String.ofList ((numbered.map fun (line, index) =>
      rowChars host line index).flatMap (· ++ ['\n'])))).filterMap rowHash =
        numbered.map fun row => shortHash host row.1 := by
  induction numbered with
  | nil => rfl
  | cons row rest ih =>
      obtain ⟨here, later⟩ := List.forall_mem_cons.mp clean
      have own := newline_not_mem_rowChars hex here row.2
      rw [List.map_cons, List.flatMap_cons, List.append_assoc, List.singleton_append,
        Text.lines_line own, List.filterMap_cons_some (rowHash_rowChars hex _ _), ih later,
        List.map_cons]

/-- The rows of an annotated text show the hash of each line. -/
theorem rowHashes_annotateContent {host : Host} (hex : host.Hexadecimal) (content : String) :
    (Text.lines (annotateContent host content)).filterMap rowHash =
      (Text.lines content).map (shortHash host) := by
  have clean : ∀ row ∈ (Text.lines content).zipIdx, '\n' ∉ row.1.toList := by
    intro row member
    exact Text.lines_clean content _ (List.fst_mem_of_mem_zipIdx member)
  rw [annotateContent_eq, rowHashes_rowChars hex clean]
  conv_rhs => rw [← List.zipIdx_map_fst 0 (Text.lines content), List.map_map]
  rfl

/-- An annotated read of a whole file shows the hash of each of its lines. -/
theorem shownHashes_readAnnotated {host : Host} (hex : host.Hexadecimal) {gate : CapabilityGate}
    {fs : FileSystem} {req : FsReadRequest} {result : FsReadResult}
    (shown : readAnnotated host gate fs req true = .ok result) (whole : result.truncated = false) :
    ∃ original, fs.read (.ofText req.path) = .ok original ∧
      shownHashes result = hashesOf host original := by
  rw [readAnnotated, read] at shown
  cases granted : gateForPath gate fs "desktop.fs.read" req.path with
  | error error =>
      rw [granted] at shown
      cases shown
  | ok _ =>
      rw [granted] at shown
      cases reads : fs.read (.ofText req.path) with
      | error errno =>
          rw [reads] at shown
          cases shown
      | ok original =>
          simp only [reads, Except.bind, Base64.base64Decode_base64Encode, if_true] at shown
          obtain rfl := Except.ok.inj shown
          have all : original.take (min (req.maxBytes.getD 1048576) 10485760) = original := by
            apply List.take_of_length_le
            have least := of_decide_eq_false whole
            rw [List.length_take] at least
            omega
          refine ⟨original, rfl, ?_⟩
          simp only [shownHashes, Base64.base64Decode_base64Encode, all, linesOf,
            Text.lossy_encode]
          exact rowHashes_annotateContent hex (Text.lossy original)

/-- The hashes of an annotated read are listed by joining them with commas. -/
theorem listedHashes_intercalate {host : Host} (hex : host.Hexadecimal) (lines : List String) :
    listedHashes (String.intercalate "," (lines.map (shortHash host))) =
      lines.map (shortHash host) := by
  cases lines with
  | nil => rfl
  | cons line rest =>
      have comma : ",".toList = [','] := by decide
      have clean : ∀ hash ∈ ((line :: rest).map (shortHash host)).map String.toList,
          ',' ∉ hash := by
        intro hash member
        obtain ⟨text, held, rfl⟩ := List.mem_map.mp member
        obtain ⟨line, -, rfl⟩ := List.mem_map.mp held
        exact fun inside => (hexadecimal_solid (shortHash_digits hex line) _ inside).2.2.1 rfl
      have filled : ((line :: rest).map (shortHash host)).map String.toList ≠ [] := by simp
      rw [listedHashes, String.toList_intercalate, comma, List.splitOn_intercalate _ clean filled,
        List.map_map]
      have trimmed : ∀ hash ∈ (line :: rest).map (shortHash host),
          Text.trim (String.ofList hash.toList) = hash := by
        intro hash member
        obtain ⟨line, -, rfl⟩ := List.mem_map.mp member
        rw [Text.trim_of_solid fun digit inside =>
          (hexadecimal_solid (shortHash_digits hex line) digit inside).2.2.2, String.ofList_toList]
      have same : ((line :: rest).map (shortHash host)).map
          ((fun part => Text.trim (String.ofList part)) ∘ String.toList) =
            (line :: rest).map (shortHash host) :=
        (List.map_congr_left trimmed).trans (List.map_id _)
      rw [same]
      apply List.filter_eq_self.mpr
      intro hash member
      obtain ⟨line, -, rfl⟩ := List.mem_map.mp member
      apply decide_eq_true
      intro empty
      have six := shortHash_length hex line
      rw [empty] at six
      cases six

/-- All listed hashes stand in a range of that length, but not in the listed sequence. -/
structure Shuffled (listed current : List String) : Prop where
  long : current.length = listed.length
  inside : listed ⊆ current
  other : current ≠ listed

/-- Among different lines only another order stands unnoticed. -/
theorem Shuffled.perm {listed current : List String} (shuffled : Shuffled listed current)
    (different : listed.Nodup) : current.Perm listed :=
  ((List.subperm_of_subset different shuffled.inside).perm_of_length_le
    (Nat.le_of_eq shuffled.long)).symm

theorem anchored_iff {host : Host} {edit : HashlineEdit} {field : String}
    (asked : edit.hashes = some field) (bytes : List UInt8) :
    Anchored host (linesOf bytes) edit ↔ edit.last ≤ (linesOf bytes).length ∧
      listedHashes field ⊆ edit.range (hashesOf host bytes) := by
  rw [Anchored, hashesOf, edit.range_map, asked]
  apply and_congr_right
  intro _
  show (listedHashes field).all (((edit.range (linesOf bytes)).map (shortHash host)).contains ·) =
    true ↔ _
  rw [List.all_eq_true]
  simp only [List.contains_iff_mem]
  rfl

/-- A patch with an edit that is not anchored changes nothing. -/
theorem patch_of_not_anchored {host : Host} {gate : CapabilityGate} {fs : FileSystem}
    {req : FsPatchRequest} {edit : HashlineEdit} {current : List UInt8} (moment : Moment)
    (member : edit ∈ req.edits) (reads : fs.read (.ofText req.path) = .ok current)
    (stale : ¬Anchored host (linesOf current) edit) :
    ∃ error, patch host moment gate fs req = (.error error, fs) := by
  rw [patch_eq]
  cases planned : planPatch host gate fs req with
  | error error => exact ⟨error, rfl⟩
  | ok plan =>
      obtain ⟨-, -, same, content⟩ := (planPatch_ok_iff host gate fs req plan).mp planned
      rw [reads] at same
      obtain ⟨anchored, -, -⟩ := (patchedContent_ok_iff host _ _ _).mp content
      rw [← Except.ok.inj same] at anchored
      exact absurd (anchored edit member) stale

/-- An anchor fits exactly the listed sequence of hashes: the file that was read is not refused, and
a file with another sequence is refused and stays as it is. -/
structure DetectsStale (host : Host) (before : FileSystem) (path : String) (edit : HashlineEdit)
    (listed : List String) (current : List UInt8) : Prop where
  fits : Anchored host (linesOf current) edit ↔ edit.range (hashesOf host current) = listed
  unchanged : before.read (.ofText path) = .ok current → Anchored host (linesOf current) edit
  refused : edit.range (hashesOf host current) ≠ listed →
    ∀ (moment : Moment) (gate : CapabilityGate) (fs : FileSystem) (req : FsPatchRequest),
      edit ∈ req.edits → fs.read (.ofText req.path) = .ok current →
        ∃ error, patch host moment gate fs req = (.error error, fs)

/-- An anchor detects every change of its lines that does not only shuffle them. -/
theorem detectsStale_iff {host : Host} (hex : host.Hexadecimal) {gate : CapabilityGate}
    {before : FileSystem} {req : FsReadRequest} {result : FsReadResult}
    (shown : readAnnotated host gate before req true = .ok result)
    (whole : result.truncated = false) {edit : HashlineEdit} {field : String}
    (asked : edit.hashes = some field) (inside : edit.last ≤ (shownHashes result).length)
    (listed : listedHashes field = edit.range (shownHashes result)) (current : List UInt8) :
    DetectsStale host before req.path edit (listedHashes field) current ↔
      ¬Shuffled (listedHashes field) (edit.range (hashesOf host current)) := by
  have long : (listedHashes field).length = edit.last - (edit.first - 1) := by
    rw [listed]
    exact (edit.length_range_eq_iff _).mpr inside
  have within : (edit.range (hashesOf host current)).length = (listedHashes field).length ↔
      edit.last ≤ (linesOf current).length := by
    rw [long, edit.length_range_eq_iff, hashesOf, List.length_map]
  constructor
  · intro detects shuffled
    have anchored := (anchored_iff asked current).mpr ⟨within.mp shuffled.long, shuffled.inside⟩
    exact shuffled.other (detects.fits.mp anchored)
  · intro kept
    have fits : Anchored host (linesOf current) edit ↔
        edit.range (hashesOf host current) = listedHashes field := by
      rw [anchored_iff asked]
      constructor
      · rintro ⟨ends, subset⟩
        by_contra other
        exact kept ⟨within.mpr ends, subset, other⟩
      · intro same
        exact ⟨within.mp (congrArg List.length same), fun hash member => same ▸ member⟩
    refine ⟨fits, ?_, ?_⟩
    · intro reads
      obtain ⟨original, first, hashes⟩ := shownHashes_readAnnotated hex shown whole
      rw [reads] at first
      rw [fits, listed, hashes, Except.ok.inj first]
    · intro other moment gate fs req member reads
      exact patch_of_not_anchored moment member reads fun anchored => other (fits.mp anchored)

def letterDigests : List String :=
  ["ca978112ca1bbdcafac231b39a23dc4da786eff8147c4f72b9807785afee48bb",
    "3e23e8160039594a33894f6564e1b1348bbd7a0088d42c4acb73eeaed59c009d",
    "e3b0c44298fc1c149afbf4c8996fb92427ae41e4649b934ca495991b7852b855"]

/-- A digest that is right about two letters. -/
def letterDigest (bytes : List UInt8) : String :=
  letterDigests.getD
    (if bytes = Text.encode "a" then 0 else if bytes = Text.encode "b" then 1 else 2) ""

def letterHost : Host := { Host.quiet with sha256 := letterDigest }

theorem letterHost_hexadecimal : letterHost.Hexadecimal := by
  have member : ∀ bytes, letterHost.sha256 bytes ∈ letterDigests := by
    intro bytes
    show letterDigest bytes ∈ letterDigests
    unfold letterDigest
    split_ifs
    · decide
    · decide
    · decide
  have spelled : ∀ digest ∈ letterDigests, digest.toList.length = 64 ∧
      digest.toList.all fun digit => decide (digit ∈ "0123456789abcdef".toList) := by
    decide
  refine ⟨fun bytes digit held => ?_, fun bytes => (spelled _ (member bytes)).1⟩
  exact of_decide_eq_true (List.all_eq_true.mp (spelled _ (member bytes)).2 digit held)

/-- The gate grants reads and writes in one directory. -/
def readingGate : CapabilityGate := .ofScopes ⟨["desktop.fs.read", "desktop.fs.write"], ["/w"]⟩

/-- A workspace has a file of two lines. -/
def twoLetters : FileSystem :=
  (FileSystem.empty.put ["w"] .dir).put ["w", "a"] (.file (Text.encode "a\nb\n"))

def bothLines : HashlineEdit := ⟨1, some 2, some "ca9781,3e23e8", []⟩

/-- The annotated read of the file. -/
def lettersShown : FsReadResult :=
  ⟨Base64.base64Encode (Text.encode "1 | ca9781 | a\n2 | 3e23e8 | b\n"), 4, false⟩

theorem read_twoLetters :
    readAnnotated letterHost readingGate twoLetters ⟨"/w/a", none, none⟩ true =
      .ok lettersShown := by decide

theorem shown_twoLetters : shownHashes lettersShown = ["ca9781", "3e23e8"] := by decide

/-- The file is not refused while it has the lines that were read. -/
theorem bothLines_unchanged :
    DetectsStale letterHost twoLetters "/w/a" bothLines (listedHashes "ca9781,3e23e8")
      (Text.encode "a\nb\n") := by
  refine (detectsStale_iff letterHost_hexadecimal read_twoLetters rfl rfl ?_ ?_ _).mpr ?_
  · rw [shown_twoLetters]
    decide
  · rw [shown_twoLetters]
    decide
  · intro shuffled
    exact shuffled.other (by decide)

/-- Two lines that changed places are not noticed. -/
theorem swapped_lines_fit :
    ¬∀ (host : Host) (_ : host.Hexadecimal) (gate : CapabilityGate) (before : FileSystem)
      (req : FsReadRequest) (result : FsReadResult)
      (_ : readAnnotated host gate before req true = .ok result) (_ : result.truncated = false)
      (edit : HashlineEdit) (field : String) (_ : edit.hashes = some field)
      (_ : edit.last ≤ (shownHashes result).length)
      (_ : listedHashes field = edit.range (shownHashes result)) (current : List UInt8),
      DetectsStale host before req.path edit (listedHashes field) current := by
  intro all
  have inside : bothLines.last ≤ (shownHashes lettersShown).length := by
    rw [shown_twoLetters]
    decide
  have listed : listedHashes "ca9781,3e23e8" = bothLines.range (shownHashes lettersShown) := by
    rw [shown_twoLetters]
    decide
  have detects := all letterHost letterHost_hexadecimal readingGate twoLetters ⟨"/w/a", none, none⟩
    lettersShown read_twoLetters rfl bothLines "ca9781,3e23e8" rfl inside listed
    (Text.encode "b\na\n")
  have fits : Anchored letterHost (linesOf (Text.encode "b\na\n")) bothLines := by decide
  exact absurd (detects.fits.mp fits) (by decide)

end FsOps

end Daemon
