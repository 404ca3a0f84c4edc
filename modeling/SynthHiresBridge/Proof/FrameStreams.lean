import SynthHiresBridge.Daemon.Frames
import SynthHiresBridge.Data.Utf8

namespace Daemon.Frame

def headerName : List Char := "Content-Length".toList

/-- The header of a frame without the lines that end it. -/
def headerFront (length : Nat) : List Char :=
  headerName ++ ':' :: ' ' :: Nat.toDigits 10 length

def frontBytes (length : Nat) : List UInt8 :=
  (headerFront length).map fun char => UInt8.ofNat char.toNat

theorem digit_solid {length : Nat} {digit : Char} (member : digit ∈ Nat.toDigits 10 length) :
    digit.isDigit = true ∧ digit.toNat < 128 ∧ digit ≠ '\r' ∧ digit ≠ '+' ∧
      Text.isWhitespace digit = false := by
  have own := Nat.isDigit_of_mem_toDigits (by decide) (by decide) member
  have range : 48 ≤ digit.toNat ∧ digit.toNat ≤ 57 := by
    rw [Char.isDigit, Bool.and_eq_true, decide_eq_true_eq, decide_eq_true_eq] at own
    exact own
  have cases : ∀ code < 58, 48 ≤ code → Text.isWhitespace (Char.ofNat code) = false := by decide
  refine ⟨own, by omega, ?_, ?_, ?_⟩
  · rintro rfl
    exact absurd own (by decide)
  · rintro rfl
    exact absurd own (by decide)
  · have shown := cases digit.toNat (by omega) range.1
    rwa [Char.ofNat_toNat] at shown

theorem headerFront_plain (length : Nat) :
    ∀ char ∈ headerFront length, char.toNat < 128 ∧ char ≠ '\r' := by
  intro char member
  have named : ∀ char ∈ headerName, char.toNat < 128 ∧ char ≠ '\r' :=
    Text.forall_of_all (by decide)
  rcases List.mem_append.mp member with name | value
  · exact named char name
  rcases List.mem_cons.mp value with rfl | value
  · decide
  rcases List.mem_cons.mp value with rfl | digit
  · decide
  · obtain ⟨-, small, clean, -⟩ := digit_solid digit
    exact ⟨small, clean⟩

theorem frontBytes_clean (length : Nat) : 13 ∉ frontBytes length := by
  intro member
  obtain ⟨char, inside, same⟩ := List.mem_map.mp member
  obtain ⟨small, other⟩ := headerFront_plain length char inside
  have code : char.toNat = 13 := by
    have back := congrArg UInt8.toNat same
    rwa [Text.toNat_byte (by omega)] at back
  have back := Char.ofNat_toNat char
  rw [code] at back
  exact other back.symm

/-- Both kinds of frames are the bytes of the header with the bytes of the body. -/
theorem encode_header (length : Nat) :
    Text.encode (String.ofList (headerFront length ++ "\r\n\r\n".toList)) =
      frontBytes length ++ headerEnd := by
  rw [Text.encode_append, Text.encode_ascii fun char member => (headerFront_plain length char member).1]
  rfl

theorem header_toList (length : Nat) : "Content-Length: " ++ toString length ++ "\r\n\r\n" =
    String.ofList (headerFront length ++ "\r\n\r\n".toList) := by
  have number : (toString length).toList = Nat.toDigits 10 length := Nat.toList_repr
  have name : "Content-Length: ".toList = headerName ++ [':', ' '] := by decide
  rw [← String.toList_inj, String.toList_ofList, String.toList_append, String.toList_append, number,
    name, headerFront, List.append_assoc headerName]
  rfl

theorem frameMessage_eq (body : String) : frameMessage body =
    frontBytes (Text.encode body).length ++ headerEnd ++ Text.encode body := by
  rw [frameMessage, header_toList, encode_header]

theorem requestFrame_eq (raw : String) : requestFrame raw = frameMessage raw := by
  rw [requestFrame, Text.encode_string_append, frameMessage]

/-- A header without a carriage return is not over before all of its end is there. -/
theorem not_headerEnd {front part : List UInt8} (clean : 13 ∉ front) (early : part <+: headerEnd)
    (short : part.length < 4) : ¬ headerEnd <:+ front ++ part := by
  intro ⟨before, whole⟩
  have twice : 2 ≤ List.count 13 (front ++ part) := by
    rw [← whole, List.count_append]
    exact Nat.le_add_left _ _
  rw [List.count_append, List.count_eq_zero_of_not_mem clean, Nat.zero_add] at twice
  have last : (front ++ part).getLast? = some 10 := by
    rw [← whole, List.getLast?_append]
    rfl
  have parts : ∀ count < 4, 2 ≤ List.count 13 (headerEnd.take count) →
      (headerEnd.take count).getLast? = some 13 := by decide
  have own := parts part.length short
  rw [← List.prefix_iff_eq_take.mp early] at own
  rw [List.getLast?_append, own twice] at last
  cases last

/-- The bytes of a header are taken up to its first end. -/
theorem readHeader_delivers {stream : ByteStream} {place : Nat} (taken : List UInt8) {rest : List UInt8}
    (more : rest ≠ []) (delivers : stream.Delivers place rest) (ends : headerEnd <:+ taken ++ rest)
    (first : ∀ part, part <+: rest → part.length < rest.length → part ≠ [] →
      ¬ headerEnd <:+ taken ++ part)
    (fits : (taken ++ rest).length ≤ 8193) :
    readHeader stream place taken = (.ok (some (taken ++ rest)), place + rest.length) := by
  induction rest generalizing place taken with
  | nil => exact absurd rfl more
  | cons byte rest ih =>
      obtain ⟨arrives, later⟩ := ByteStream.delivers_cons_iff.mp delivers
      rw [readHeader, arrives]
      cases rest with
      | nil => simp only [ends, if_true, List.length_singleton]
      | cons next rest =>
          have unfinished : ¬ headerEnd <:+ taken ++ [byte] :=
            first [byte] ⟨next :: rest, rfl⟩ (by simp) (List.cons_ne_nil _ _)
          have short : ¬ (taken ++ [byte]).length > 8192 := by
            simp only [List.length_append, List.length_cons, List.length_nil] at fits ⊢
            omega
          have joined : taken ++ byte :: next :: rest = (taken ++ [byte]) ++ next :: rest := by
            rw [List.append_assoc, List.singleton_append]
          simp only [unfinished, short, if_false]
          rw [joined] at ends fits ⊢
          rw [ih _ (List.cons_ne_nil _ _) later ends ?_ fits, List.length_cons (a := byte),
            Nat.add_assoc, Nat.add_comm 1]
          intro part early shorter filled
          rw [List.append_assoc, List.singleton_append]
          refine first (byte :: part) ?_ ?_ (List.cons_ne_nil _ _)
          · exact List.cons_prefix_cons.mpr ⟨rfl, early⟩
          · exact Nat.succ_lt_succ shorter

theorem headerLines_front {front : List Char} (clean : '\r' ∉ front) :
    headerLines (front ++ "\r\n\r\n".toList) = [front, [], []] := by
  induction front with
  | nil => rfl
  | cons char rest ih =>
      obtain ⟨other, later⟩ := not_or.mp (List.mem_cons.not.mp clean)
      rw [List.cons_append, headerLines, ih later]
      exact fun _ same _ => other same.symm

/-- A number without a sign is read as it stands. -/
theorem parseU64_unsigned {digits : List Char} (unsigned : '+' ∉ digits) (filled : digits ≠ [])
    (all : digits.all Char.isDigit = true) (small : Nat.ofDigitChars 10 digits 0 < UInt64.size) :
    parseU64 (String.ofList digits) = some (Nat.ofDigitChars 10 digits 0) := by
  rw [Nat.ofDigitChars_eq_foldl] at small ⊢
  rw [parseU64, String.toList_ofList]
  split
  · exact absurd List.mem_cons_self unsigned
  · dsimp only
    rw [if_pos ⟨filled, all⟩]
    exact if_pos small

theorem parseU64_digits {number : Nat} (small : number < UInt64.size) :
    parseU64 (String.ofList (Nat.toDigits 10 number)) = some number := by
  have value : Nat.ofDigitChars 10 (Nat.toDigits 10 number) 0 = number :=
    Nat.ofDigitChars_ten_toDigits
  have unsigned : '+' ∉ Nat.toDigits 10 number := fun member => (digit_solid member).2.2.2.1 rfl
  have read := parseU64_unsigned unsigned Nat.toDigits_ne_nil
    (List.all_eq_true.mpr fun _ member => (digit_solid member).1)
  rw [value] at read
  exact read small

/-- The header of a frame tells the length of its body. -/
theorem contentLength_header {length : Nat} (small : length < UInt64.size) :
    contentLength (String.ofList (headerFront length ++ "\r\n\r\n".toList)) = some length := by
  have clean : '\r' ∉ headerFront length := fun member => (headerFront_plain length _ member).2 rfl
  have cut : Text.splitOnce [':'] (headerFront length) =
      some (headerName, ' ' :: Nat.toDigits 10 length) := Text.splitOnce_single (by decide) _
  have trimmed : Text.trim (String.ofList (' ' :: Nat.toDigits 10 length)) =
      String.ofList (Nat.toDigits 10 length) := by
    have plain : ∀ digit ∈ Nat.toDigits 10 length, Text.isWhitespace digit = false :=
      fun digit member => (digit_solid member).2.2.2.2
    have solid := Text.trim_of_solid plain
    rw [Text.trim, String.toList_ofList] at solid ⊢
    rwa [List.dropWhile_cons_of_pos (by decide)]
  have named : Text.lower (Text.trim (String.ofList headerName)).toList =
      "content-length".toList := by decide
  have blank : Text.splitOnce [':'] [] = none := rfl
  have lines := headerLines_front clean
  rw [← String.toList_ofList (l := headerFront length ++ _)] at lines
  rw [contentLength, lines]
  simp only [List.foldl_cons, List.foldl_nil, cut, blank, named, if_true, trimmed]
  exact parseU64_digits small

theorem readHeader_frame {stream : ByteStream} {place length : Nat}
    (delivers : stream.Delivers place (frontBytes length ++ headerEnd))
    (fits : (frontBytes length).length ≤ 8189) :
    readHeader stream place [] = (.ok (some (frontBytes length ++ headerEnd)),
      place + (frontBytes length ++ headerEnd).length) := by
  have filled : frontBytes length ++ headerEnd ≠ [] :=
    List.append_ne_nil_of_right_ne_nil _ (by decide)
  have read := readHeader_delivers [] filled delivers
  rw [List.nil_append] at read
  refine read (List.suffix_append _ _) ?_ ?_
  · intro part early shorter _ ending
    rw [List.length_append] at shorter
    rw [List.nil_append, List.prefix_iff_eq_take.mp early, List.take_append] at ending
    refine not_headerEnd ?_ (List.take_prefix _ _) ?_ ending
    · exact fun member => frontBytes_clean length (List.mem_of_mem_take member)
    · rw [List.length_take]
      have own : headerEnd.length = 4 := rfl
      omega
  · rw [List.length_append]
    exact Nat.add_le_add_right fits 4

/-- The length of a body has at most eight digits. -/
theorem frontBytes_length {length : Nat} (fits : length ≤ maxFrameBytes) :
    (frontBytes length).length ≤ 24 := by
  have digits : (Nat.toDigits 10 length).length ≤ 8 := by
    rw [Nat.length_toDigits_le_iff (by decide) (by decide)]
    exact Nat.lt_of_le_of_lt fits (by decide)
  have name : headerName.length = 14 := by decide
  rw [frontBytes, List.length_map, headerFront, List.length_append, name, List.length_cons,
    List.length_cons]
  omega

theorem readBody_delivers {stream : ByteStream} {place : Nat} {body : String}
    (delivers : stream.Delivers place (Text.encode body)) :
    readBody stream place (Text.encode body).length =
      (.ok body, place + (Text.encode body).length) := by
  simp only [readBody, ByteStream.readExact_delivers delivers, Text.strict_encode]

/-- A frame is read back as its body. -/
theorem readFrame_frame {stream : ByteStream} {place : Nat} {body : String}
    (delivers : stream.Delivers place (frameMessage body)) (filled : body ≠ "")
    (fits : (Text.encode body).length ≤ maxFrameBytes) :
    readFrame stream place = (.ok (some body), place + (frameMessage body).length) := by
  rw [frameMessage_eq] at delivers ⊢
  obtain ⟨first, later⟩ := ByteStream.delivers_append_iff.mp delivers
  have header := readHeader_frame first
    (Nat.le_trans (frontBytes_length fits) (by decide))
  have named : Text.strict (frontBytes (Text.encode body).length ++ headerEnd) =
      some (String.ofList (headerFront (Text.encode body).length ++ "\r\n\r\n".toList)) := by
    rw [← encode_header, Text.strict_encode]
  have small : (Text.encode body).length < UInt64.size := Nat.lt_of_le_of_lt fits (by decide)
  have sized : ¬ ((Text.encode body).length = 0 ∨ (Text.encode body).length > maxFrameBytes) := by
    rintro (none | large)
    · exact filled (Text.encode_injective (List.length_eq_zero_iff.mp none))
    · exact Nat.not_lt.mpr fits large
  simp only [readFrame, header, named, contentLength_header small, sized, if_false,
    readBody_delivers later, Except.map]
  generalize frontBytes (Text.encode body).length ++ headerEnd = header
  rw [List.length_append, Nat.add_assoc]

theorem readFrame_ended {stream : ByteStream} {place : Nat} (ended : stream place = .ended) :
    readFrame stream place = (.ok none, place) := by
  rw [readFrame, readHeader, ended]

section Frames

variable {stream : ByteStream} {bodies : List String}
  (delivers : stream.Delivers 0 (bodies.flatMap frameMessage))
  (ended : stream (bodies.flatMap frameMessage).length = .ended)
  (sized : ∀ body ∈ bodies, body ≠ "" ∧ (Text.encode body).length ≤ maxFrameBytes)

include delivers ended sized

/-- A read takes the next frame, and after the last frame it takes nothing. -/
theorem readFrame_next (count : Nat) :
    readFrame stream ((bodies.take count).flatMap frameMessage).length =
      (.ok bodies[count]?, ((bodies.take (count + 1)).flatMap frameMessage).length) := by
  cases found : bodies[count]? with
  | none =>
      have past := List.getElem?_eq_none_iff.mp found
      rw [List.take_of_length_le past, List.take_of_length_le (Nat.le_succ_of_le past)]
      exact readFrame_ended ended
  | some body =>
      obtain ⟨filled, fits⟩ := sized body (List.mem_of_getElem? found)
      have cut := List.take_append_drop count bodies
      rw [List.drop_eq_getElem?_toList_append, found] at cut
      rw [← cut, List.flatMap_append] at delivers
      have own := (ByteStream.delivers_append_iff.mp delivers).2
      rw [Nat.zero_add, Option.toList_some, List.singleton_append, List.flatMap_cons] at own
      rw [readFrame_frame (ByteStream.delivers_append_iff.mp own).1 filled fits,
        List.take_add_one, found, List.flatMap_append, List.length_append, Option.toList_some,
        List.flatMap_singleton]

theorem placeAfter_frames (count : Nat) :
    placeAfter stream count = ((bodies.take count).flatMap frameMessage).length := by
  induction count with
  | zero => rfl
  | succ count ih => rw [placeAfter, ih, readFrame_next delivers ended sized]

theorem readAgain_delivers (count : Nat) : readAgain stream count = .ok bodies[count]? := by
  rw [readAgain, placeAfter_frames delivers ended sized, readFrame_next delivers ended sized]

end Frames

/-- A header that never ends is given up after one byte too many. -/
theorem readHeader_place (stream : ByteStream) (place : Nat) (header : List UInt8)
    (short : header.length ≤ 8192) :
    (readHeader stream place header).2 + header.length ≤ place + 8193 ∧
      place ≤ (readHeader stream place header).2 := by
  induction place, header using readHeader.induct stream with
  | case1 place header error failed =>
      rw [readHeader, failed]
      dsimp only
      omega
  | case2 place header ended =>
      rw [readHeader, ended]
      dsimp only
      omega
  | case3 place header byte arrives ends =>
      rw [readHeader, arrives]
      simp only [ends, if_true]
      omega
  | case4 place header byte arrives unfinished long =>
      rw [readHeader, arrives]
      simp only [unfinished, long, if_true, if_false]
      omega
  | case5 place header byte arrives unfinished fits ih =>
      rw [readHeader, arrives]
      simp only [unfinished, fits, if_false]
      have later := ih (Nat.not_lt.mp fits)
      rw [List.length_append, List.length_singleton] at later
      omega

theorem readBody_place (stream : ByteStream) (place length : Nat) :
    (readBody stream place length).2 = (stream.readExact place length).2 := by
  rw [readBody]
  split
  · rfl
  · split <;> rfl

/-- After its header a read takes no more than one body. -/
theorem readFrame_place (stream : ByteStream) (place : Nat) :
    ∃ body ≤ maxFrameBytes,
      (readFrame stream place).2 = (readHeader stream place []).2 + body := by
  rw [readFrame]
  dsimp only
  split
  · exact ⟨0, Nat.zero_le _, rfl⟩
  · exact ⟨0, Nat.zero_le _, rfl⟩
  split
  · exact ⟨0, Nat.zero_le _, rfl⟩
  split
  · exact ⟨0, Nat.zero_le _, rfl⟩
  rename_i length _
  split
  · exact ⟨0, Nat.zero_le _, rfl⟩
  · rename_i sized
    obtain ⟨taken, few, reached⟩ := stream.readExact_place (readHeader stream place []).2 length
    refine ⟨taken, Nat.le_trans few (Nat.not_lt.mp (not_or.mp sized).2), ?_⟩
    rw [← reached, ← readBody_place]

/-- Repeated reads give the bodies of the frames in order, and a read of any stream takes a bounded
header and at most one body. -/
theorem readAgain_frames (bodies : List String)
    (sized : ∀ body ∈ bodies, body ≠ "" ∧ (Text.encode body).length ≤ maxFrameBytes) :
    (∀ frame ∈ [frameMessage, requestFrame], ∀ count,
      readAgain (ByteStream.ofBytes (bodies.flatMap frame)) count = .ok bodies[count]?) ∧
    ∀ stream place, ∃ header ≤ 8193, ∃ body ≤ maxFrameBytes,
      (readHeader stream place []).2 = place + header ∧
      (readFrame stream place).2 = place + header + body := by
  refine ⟨fun frame kind => ?_, fun stream place => ?_⟩
  · have same : frame = frameMessage := by
      rcases List.mem_pair.mp kind with rfl | rfl
      · rfl
      · exact funext requestFrame_eq
    rw [same]
    exact readAgain_delivers (ByteStream.delivers_ofBytes _) (ByteStream.ofBytes_ended _) sized
  · obtain ⟨below, above⟩ := readHeader_place stream place [] (Nat.zero_le _)
    obtain ⟨body, few, reached⟩ := readFrame_place stream place
    rw [List.length_nil, Nat.add_zero] at below
    refine ⟨(readHeader stream place []).2 - place, by omega, body, few, by omega, ?_⟩
    rw [reached, Nat.add_sub_cancel' above]

/-- A body may look like the end of a header. -/
theorem readAgain_frames_headerEnd :
    (∀ body ∈ ["\r\n\r\nContent-Length: 9\r\n\r\n", "\u00e9"],
      body ≠ "" ∧ (Text.encode body).length ≤ maxFrameBytes) ∧
    (∀ frame ∈ [frameMessage, requestFrame], ∀ count, readAgain (ByteStream.ofBytes
      (["\r\n\r\nContent-Length: 9\r\n\r\n", "\u00e9"].flatMap frame)) count =
        .ok ["\r\n\r\nContent-Length: 9\r\n\r\n", "\u00e9"][count]?) := by
  have sized : ∀ body ∈ ["\r\n\r\nContent-Length: 9\r\n\r\n", "\u00e9"],
      body ≠ "" ∧ (Text.encode body).length ≤ maxFrameBytes := by decide
  exact ⟨sized, (readAgain_frames _ sized).1⟩

end Daemon.Frame
