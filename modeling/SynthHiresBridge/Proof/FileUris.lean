import SynthHiresBridge.Daemon.LspSession
import SynthHiresBridge.Data.Separated
import SynthHiresBridge.Data.Utf8

namespace Posix.PathBuf

/-- The segments between the separators of a text. -/
def segmentsOf (chars : List Char) : List Segment := (chars.splitOn '/').filterMap bodySegment

theorem segmentsOf_split (front rest : List Char) :
    segmentsOf (front ++ '/' :: rest) = segmentsOf front ++ segmentsOf rest := by
  rw [segmentsOf, List.splitOn_append_cons_self, List.filterMap_append]
  rfl

theorem segmentsOf_piece {piece : List Char} (clean : '/' ∉ piece) :
    segmentsOf piece = (bodySegment piece).toList := by
  rw [segmentsOf, List.splitOn_eq_singleton clean]
  cases found : bodySegment piece with
  | none => rw [List.filterMap_cons_none found]; rfl
  | some segment => rw [List.filterMap_cons_some found]; rfl

theorem ofText_segments (text : String) : (ofText text).segments = segmentsOf text.toList := by
  rw [ofText, segmentsOf]
  split
  · rename_i same
    rw [same]
    rfl
  · rename_i same
    rw [same]
    rfl
  · rename_i same
    rw [same]
    rfl
  · rfl

/-- A text that begins with a separator is an absolute path. -/
theorem ofText_absolute {chars : List Char} (begins : chars.head? = some '/') :
    (ofText (String.ofList chars)).anchor = .root := by
  obtain ⟨rest, rfl⟩ := List.head?_eq_some_iff.mp begins
  have pieces : ('/' :: rest).splitOn '/' = [] :: rest.splitOn '/' := by
    rw [List.splitOn_cons_eq_if_modifyHead, beq_self_eq_true, if_pos rfl]
  obtain ⟨piece, more, same⟩ := List.exists_cons_of_ne_nil (List.splitOn_ne_nil '/' rest)
  rw [ofText, String.toList_ofList]
  simp only [pieces, same]

/-- A name among the components of a path is one of its segments. -/
theorem segment_of_component {path : PathBuf} {name : String}
    (listed : .normal name ∈ path.components) : .normal name ∈ path.segments := by
  rcases List.mem_append.mp listed with start | follows
  · cases anchor : path.anchor with
    | root =>
        rw [anchor] at start
        exact absurd (List.mem_singleton.mp start) Component.noConfusion
    | current =>
        rw [anchor] at start
        exact absurd (List.mem_singleton.mp start) Component.noConfusion
    | bare =>
        rw [anchor] at start
        cases start
  · obtain ⟨segment, member, same⟩ := List.mem_map.mp follows
    cases segment with
    | parentDir => cases same
    | normal other =>
        rw [← Component.normal.inj same]
        exact member

theorem bodySegment_name {piece : List Char} {name : String}
    (named : bodySegment piece = some (.normal name)) : name.toList = piece := by
  unfold bodySegment at named
  split at named
  · cases named
  · cases named
  · cases named
  · rw [← Segment.normal.inj (Option.some.inj named), String.toList_ofList]

/-- Every character of a name stands in the text of its path. -/
theorem mem_of_segment {chars : List Char} {name : String} {char : Char}
    (member : .normal name ∈ segmentsOf chars) (inside : char ∈ name.toList) : char ∈ chars := by
  obtain ⟨piece, held, named⟩ := List.mem_filterMap.mp member
  rw [bodySegment_name named] at inside
  exact (Separated.mem_splitOn_iff.mp ⟨piece, held, inside⟩).1

/-- A character other than a separator and a dot stands in a name. -/
theorem segment_of_mem {chars : List Char} {char : Char} (member : char ∈ chars)
    (solid : char ≠ '/') (other : char ≠ '.') :
    ∃ name, .normal name ∈ segmentsOf chars ∧ char ∈ name.toList := by
  obtain ⟨piece, held, inside⟩ := Separated.mem_splitOn_iff.mpr ⟨member, solid⟩
  have named : bodySegment piece = some (.normal (String.ofList piece)) := by
    unfold bodySegment
    split
    · cases inside
    · exact absurd (List.mem_singleton.mp inside) other
    · simp only [List.mem_cons, List.not_mem_nil, or_false, or_self] at inside
      exact absurd inside other
    · rfl
  refine ⟨String.ofList piece, List.mem_filterMap.mpr ⟨piece, held, named⟩, ?_⟩
  rwa [String.toList_ofList]

end Posix.PathBuf

namespace Daemon

open Posix

namespace LspOps

theorem percentDecode_plain {byte : UInt8} (plain : byte ≠ 37) (rest : List UInt8) :
    percentDecode (byte :: rest) = (percentDecode rest).map (byte :: ·) := by
  rw [percentDecode]
  intro first second more same
  exact absurd same plain

end LspOps

namespace LspEngine

open LspOps

/-- The hexadecimal digits of a byte. -/
def percentGroup (byte : UInt8) : List Char :=
  ['%', (Json.hexDigit (byte.toNat / 16)).toUpper, (Json.hexDigit (byte.toNat % 16)).toUpper]

theorem percentGroup_bytes (byte : UInt8) : ∃ high low,
    Text.encode (String.ofList (percentGroup byte)) = [37, high, low] ∧
      hexPair high low = some byte := by
  have each : ∀ code < 256,
      Text.encode (String.ofList (percentGroup (UInt8.ofNat code))) =
        [37, UInt8.ofNat (Json.hexDigit (code / 16)).toUpper.toNat,
          UInt8.ofNat (Json.hexDigit (code % 16)).toUpper.toNat] ∧
      hexPair (UInt8.ofNat (Json.hexDigit (code / 16)).toUpper.toNat)
        (UInt8.ofNat (Json.hexDigit (code % 16)).toUpper.toNat) = some (UInt8.ofNat code) := by
    decide +kernel
  obtain ⟨spelled, read⟩ := each byte.toNat byte.toNat_lt
  rw [UInt8.ofNat_toNat] at spelled read
  exact ⟨_, _, spelled, read⟩

/-- Groups are decoded to their bytes. -/
theorem percentDecode_groups (bytes rest : List UInt8) :
    percentDecode (Text.encode (String.ofList (bytes.flatMap percentGroup)) ++ rest) =
      (percentDecode rest).map (bytes ++ ·) := by
  induction bytes with
  | nil => exact Option.map_id'.symm
  | cons byte bytes ih =>
      obtain ⟨high, low, spelled, read⟩ := percentGroup_bytes byte
      rw [List.flatMap_cons, Text.encode_append, spelled, List.append_assoc]
      show percentDecode (37 :: high :: low :: (_ ++ rest)) = _
      rw [percentDecode, read, Option.bind_some, ih, Option.map_map]
      rfl

/-- A character that stands for itself has one byte, which is no percent sign. -/
theorem kept_small {char : Char}
    (kept : char.isAlphanum = true ∨ "-_.!~*'()".toList.contains char = true) :
    char.toNat < 128 ∧ char.toNat ≠ 37 := by
  rcases kept with letter | mark
  · delta Char.isAlphanum Char.isAlpha Char.isDigit Char.isUpper Char.isLower at letter
    simp only [Bool.or_eq_true, Bool.and_eq_true, decide_eq_true_eq, ge_iff_le,
      UInt32.le_iff_toNat_le] at letter
    simp at letter
    omega
  · have each : ∀ item ∈ "-_.!~*'()".toList, item.toNat < 128 ∧ item.toNat ≠ 37 :=
      Text.forall_of_all (by decide)
    exact each char (List.contains_iff_mem.mp mark)

/-- A character of an address is decoded to its bytes. -/
theorem percentDecode_uriChar (char : Char) (rest : List UInt8) :
    percentDecode (Text.encode (String.ofList (uriChar char)) ++ rest) =
      (percentDecode rest).map (String.utf8EncodeChar char ++ ·) := by
  rw [uriChar]
  split
  · rename_i kept
    obtain ⟨small, plain⟩ := kept_small kept
    have ascii : ∀ item ∈ [char], item.toNat < 128 := by
      intro item member
      rwa [List.mem_singleton.mp member]
    have one : Text.encode (String.ofList [char]) = String.utf8EncodeChar char := by
      rw [Text.encode_cons]
      exact List.append_nil _
    have byte := Text.encode_ascii ascii
    rw [← one, byte]
    refine percentDecode_plain ?_ rest
    intro same
    have code := congrArg UInt8.toNat same
    rw [Text.toNat_byte (by omega)] at code
    exact plain code
  · exact percentDecode_groups _ rest

theorem percentDecode_uriChars (chars : List Char) (rest : List UInt8) :
    percentDecode (Text.encode (String.ofList (chars.flatMap uriChar)) ++ rest) =
      (percentDecode rest).map (Text.encode (String.ofList chars) ++ ·) := by
  induction chars with
  | nil => exact Option.map_id'.symm
  | cons char chars ih =>
      rw [List.flatMap_cons, Text.encode_append, List.append_assoc, percentDecode_uriChar, ih,
        Option.map_map, Text.encode_cons]
      refine congrArg (Option.map · (percentDecode rest)) (funext fun bytes => ?_)
      exact (List.append_assoc _ _ bytes).symm

/-- The names of a path, each after a slash. -/
def slashed (parts : List String) : List Char := parts.flatMap fun part => '/' :: part.toList

theorem percentDecode_slashed (parts : List String) (rest : List UInt8) :
    percentDecode (Text.encode (String.ofList
        (parts.flatMap fun part => '/' :: part.toList.flatMap uriChar)) ++ rest) =
      (percentDecode rest).map (Text.encode (String.ofList (slashed parts)) ++ ·) := by
  induction parts with
  | nil => exact Option.map_id'.symm
  | cons part parts ih =>
      have slash : ∀ more : List UInt8, percentDecode (String.utf8EncodeChar '/' ++ more) =
          (percentDecode more).map (String.utf8EncodeChar '/' ++ ·) :=
        percentDecode_plain (by decide)
      rw [List.flatMap_cons, Text.encode_append, Text.encode_cons, List.append_assoc,
        List.append_assoc, slash, percentDecode_uriChars, ih, Option.map_map,
        Option.map_map]
      refine congrArg (Option.map · (percentDecode rest)) (funext fun bytes => ?_)
      have first : slashed (part :: parts) = '/' :: part.toList ++ slashed parts := rfl
      rw [first, Text.encode_append, Text.encode_cons]
      show _ ++ (_ ++ (_ ++ bytes)) = (_ ++ _) ++ _ ++ bytes
      rw [List.append_assoc, List.append_assoc]

/-- The names that a path is written with. -/
def namesIn (path : String) : List String :=
  (Text.split path fun char => char == '/' || char == '\\').filter (· ≠ "")

/-- A path keeps its last slash. -/
def lastSlash (path : String) : List Char :=
  if path.toList.getLast? = some '/' then ['/'] else []

theorem lastSlash_cases (path : String) : lastSlash path = [] ∨ lastSlash path = ['/'] := by
  rw [lastSlash]
  split
  · exact .inr rfl
  · exact .inl rfl

/-- The address of a path is read as its names behind slashes. -/
theorem uriToPath_pathToUri (path : String) :
    uriToPath (pathToUri path) =
      some (String.ofList (slashed (namesIn path) ++ lastSlash path)) := by
  let body := ((namesIn path).flatMap fun part => '/' :: part.toList.flatMap uriChar) ++
    lastSlash path
  have address : (pathToUri path).toList = "file://".toList ++ body := by
    have spelled : pathToUri path = String.ofList ("file://".toList ++
        ((namesIn path).flatMap fun part => '/' :: part.toList.flatMap uriChar) ++
        lastSlash path) := rfl
    have chars := (congrArg String.toList spelled).trans String.toList_ofList
    exact chars.trans (List.append_assoc _ _ _)
  have begins : body = [] ∨ ∃ rest, body = '/' :: rest := by
    cases names : namesIn path with
    | nil =>
        have plain : body = lastSlash path := by
          show (namesIn path).flatMap _ ++ _ = _
          rw [names]
          rfl
        rcases lastSlash_cases path with same | same
        · exact .inl (plain.trans same)
        · exact .inr ⟨[], plain.trans same⟩
    | cons name others =>
        have plain : body = '/' :: (name.toList.flatMap uriChar ++
            ((others.flatMap fun part => '/' :: part.toList.flatMap uriChar) ++
              lastSlash path)) := by
          show (namesIn path).flatMap _ ++ _ = _
          rw [names, List.flatMap_cons, List.append_assoc, List.cons_append]
        exact .inr ⟨_, plain⟩
  have start : body.dropWhile (· ≠ '/') = body := by
    rcases begins with same | ⟨rest, same⟩
    · rw [same]
      rfl
    · rw [same]
      exact List.dropWhile_cons_of_neg (by decide)
  have last : percentDecode (Text.encode (String.ofList (lastSlash path))) =
      some (Text.encode (String.ofList (lastSlash path))) := by
    rcases lastSlash_cases path with same | same
    · rw [same]
      decide
    · rw [same]
      decide
  have found : "file://".toList.isPrefixOf (pathToUri path).toList = true := by
    rw [address]
    exact List.isPrefixOf_iff_prefix.mpr (List.prefix_append _ _)
  have rest : (pathToUri path).toList.drop 7 = body := by
    have seven : "file://".toList.length = 7 := by decide
    rw [address, ← seven]
    exact List.drop_left
  rw [uriToPath, if_pos found]
  simp only [rest, start]
  show (percentDecode (Text.encode (String.ofList (_ ++ _)))).map _ = _
  rw [Text.encode_append, percentDecode_slashed, last, Option.map_some, Option.map_some,
    ← Text.encode_append, Text.lossy_encode]

theorem mem_namesIn {path : String} {char : Char} :
    (∃ name ∈ namesIn path, char ∈ name.toList) ↔
      char ∈ path.toList ∧ char ≠ '/' ∧ char ≠ '\\' := by
  have cut : ((char == '/' || char == '\\') = false) ↔ char ≠ '/' ∧ char ≠ '\\' := by
    rw [Bool.or_eq_false_iff, beq_eq_false_iff_ne, beq_eq_false_iff_ne]
  have pieces : (∃ piece ∈ path.toList.splitOnP fun char => char == '/' || char == '\\',
      char ∈ piece) ↔ char ∈ path.toList ∧ (char == '/' || char == '\\') = false :=
    Separated.mem_splitOnP_iff
  rw [← cut, ← pieces]
  constructor
  · rintro ⟨name, held, inside⟩
    obtain ⟨piece, member, rfl⟩ := List.mem_map.mp (List.mem_filter.mp held).1
    rw [String.toList_ofList] at inside
    exact ⟨piece, member, inside⟩
  · rintro ⟨piece, member, inside⟩
    refine ⟨String.ofList piece, List.mem_filter.mpr ⟨List.mem_map_of_mem member, ?_⟩, ?_⟩
    · refine decide_eq_true fun same => ?_
      rw [String.ofList_eq_empty_iff.mp same] at inside
      cases inside
    · rwa [String.toList_ofList]

/-- The segments behind slashes are those of the names. -/
theorem segmentsOf_slashed (front : List Char) (names : List String) (path : String) :
    PathBuf.segmentsOf (front ++ (slashed names ++ lastSlash path)) =
      PathBuf.segmentsOf front ++ names.flatMap fun name => PathBuf.segmentsOf name.toList := by
  induction names generalizing front with
  | nil =>
      rcases lastSlash_cases path with same | same
      · rw [same]
        show PathBuf.segmentsOf (front ++ []) = _ ++ []
        rw [List.append_nil, List.append_nil]
      · rw [same]
        exact PathBuf.segmentsOf_split front []
  | cons name names ih =>
      have first : front ++ (slashed (name :: names) ++ lastSlash path) =
          front ++ '/' :: (name.toList ++ (slashed names ++ lastSlash path)) := by
        show _ ++ ('/' :: name.toList ++ slashed names ++ _) = _
        rw [List.append_assoc, List.cons_append]
      rw [first, PathBuf.segmentsOf_split, ih, List.flatMap_cons]

/-- Without a backslash the names of a path have its segments. -/
theorem segmentsOf_namesIn {path : String} (plain : '\\' ∉ path.toList) :
    PathBuf.segmentsOf path.toList =
      (namesIn path).flatMap fun name => PathBuf.segmentsOf name.toList := by
  have same : path.toList.splitOnP (fun char => char == '/' || char == '\\') =
      path.toList.splitOn '/' := by
    refine Separated.splitOnP_congr fun item member => ?_
    have other : (item == '\\') = false :=
      beq_eq_false_iff_ne.mpr fun back => plain (back ▸ member)
    rw [other, Bool.or_false]
  rw [PathBuf.segmentsOf, namesIn, Text.split, same]
  have clean : ∀ piece ∈ path.toList.splitOn '/', '/' ∉ piece := by
    intro piece member inside
    exact (Separated.mem_splitOn_iff.mp ⟨piece, member, inside⟩).2 rfl
  generalize path.toList.splitOn '/' = pieces at clean
  induction pieces with
  | nil => rfl
  | cons piece pieces ih =>
      obtain ⟨own, others⟩ := List.forall_mem_cons.mp clean
      have each := PathBuf.segmentsOf_piece own
      rw [List.map_cons, List.filter_cons]
      by_cases empty : piece = []
      · rw [empty]
        exact ih others
      · have solid : String.ofList piece ≠ "" := fun same =>
          empty (String.ofList_eq_empty_iff.mp same)
        rw [if_pos (decide_eq_true solid), List.flatMap_cons, String.toList_ofList, each,
          ← ih others]
        cases found : PathBuf.bodySegment piece with
        | none => rw [List.filterMap_cons_none found]; rfl
        | some segment => rw [List.filterMap_cons_some found]; rfl

/-- The address of a path leads back to a path with its components. -/
def LeadsBack (path : String) : Prop :=
  ∃ back, uriToPath (pathToUri path) = some back ∧
    (PathBuf.ofText back).components = (PathBuf.ofText path).components

theorem leadsBack_of_plain {path : String} (absolute : path.toList.head? = some '/')
    (plain : '\\' ∉ path.toList) : LeadsBack path := by
  refine ⟨_, uriToPath_pathToUri path, ?_⟩
  have segments : (PathBuf.ofText (String.ofList (slashed (namesIn path) ++
      lastSlash path))).segments = (PathBuf.ofText path).segments := by
    rw [PathBuf.ofText_segments, PathBuf.ofText_segments, String.toList_ofList,
      segmentsOf_namesIn plain]
    exact segmentsOf_slashed [] (namesIn path) path
  have begins : (slashed (namesIn path) ++ lastSlash path).head? = some '/' := by
    cases names : namesIn path with
    | cons name others => rfl
    | nil =>
        -- A path without names has separators only, so the last character is a slash.
        have last : path.toList.getLast? = some '/' := by
          cases ends : path.toList.getLast? with
          | none =>
              rw [List.getLast?_eq_none_iff.mp ends] at absolute
              cases absolute
          | some char =>
              have member := List.mem_of_getLast? ends
              by_cases same : char = '/'
              · rw [same]
              · obtain ⟨name, held, -⟩ := mem_namesIn.mpr
                  ⟨member, same, fun back => plain (back ▸ member)⟩
                rw [names] at held
                cases held
        rw [lastSlash, if_pos last]
        rfl
  have anchors := (PathBuf.ofText_absolute begins).trans (PathBuf.ofText_absolute absolute).symm
  rw [String.ofList_toList] at anchors
  rw [PathBuf.components, PathBuf.components, segments, anchors]

theorem not_leadsBack {path : String} (inside : '\\' ∈ path.toList) : ¬ LeadsBack path := by
  rintro ⟨back, found, same⟩
  rw [uriToPath_pathToUri] at found
  obtain rfl := Option.some.inj found
  obtain ⟨name, member, held⟩ := PathBuf.segment_of_mem inside (by decide) (by decide)
  rw [← PathBuf.ofText_segments] at member
  have listed : Component.normal name ∈ (PathBuf.ofText path).components :=
    List.mem_append_right _ (List.mem_map_of_mem member)
  rw [← same] at listed
  have segment := PathBuf.segment_of_component listed
  rw [PathBuf.ofText_segments, String.toList_ofList] at segment
  rcases List.mem_append.mp (PathBuf.mem_of_segment segment held) with named | last
  · obtain ⟨part, part_held, spelled⟩ := List.mem_flatMap.mp named
    rcases List.mem_cons.mp spelled with slash | letter
    · exact absurd slash (by decide)
    · exact (mem_namesIn.mp ⟨part, part_held, letter⟩).2.2 rfl
  · rcases lastSlash_cases path with empty | slash
    · rw [empty] at last
      cases last
    · rw [slash] at last
      exact absurd (List.mem_singleton.mp last) (by decide)

/-- A backslash in a name comes back as a separator. -/
theorem backslash_separates :
    "/a\\b".toList.head? = some '/' ∧ uriToPath (pathToUri "/a\\b") = some "/a/b" ∧
      ¬ LeadsBack "/a\\b" :=
  ⟨by decide, by decide, not_leadsBack (by decide)⟩

/-- An absolute path is led back to exactly when no backslash stands in it. -/
theorem leadsBack_iff {path : String} (absolute : path.toList.head? = some '/') :
    LeadsBack path ↔ '\\' ∉ path.toList := by
  constructor
  · exact fun back inside => not_leadsBack inside back
  · exact leadsBack_of_plain absolute

theorem spaced_path_leadsBack :
    LeadsBack "/work//a b%20/é.rs" ↔ '\\' ∉ "/work//a b%20/é.rs".toList :=
  leadsBack_iff (by decide)

end LspEngine

end Daemon
