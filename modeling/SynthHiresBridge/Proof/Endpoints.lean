import SynthHiresBridge.Daemon.ClientStart
import SynthHiresBridge.Data.Replace
import SynthHiresBridge.Transition.Run

namespace Daemon

open Transition

namespace ClientStart

/-- The client speaks to a socket only. -/
def IsSocket (url : List Char) : Prop :=
  "ws://".toList <+: url ∨ "wss://".toList <+: url

instance (url : List Char) : Decidable (IsSocket url) :=
  inferInstanceAs (Decidable (_ ∨ _))

def IsWeb (url : List Char) : Prop :=
  "http://".toList <+: url ∨ "https://".toList <+: url

/-- The host with its port, and the rest of a URL after it. -/
def parts (url : List Char) : Option (List Char × List Char) :=
  (Text.splitOnce "://".toList url).map fun cut =>
    (cut.2.takeWhile fun char => !Text.ends char, cut.2.dropWhile fun char => !Text.ends char)

def authority (url : List Char) : Option (List Char) :=
  (parts url).map Prod.fst

/-- A URL ends with the path of the socket, and it does so once. -/
structure OnePath (url : List Char) : Prop where
  ends : socketPath.toList <:+ url
  once : ¬ socketPath.toList ++ socketPath.toList <:+ url

/-- A dialled URL is an endpoint of the backend, or of the server that was named in full. -/
structure OneEndpoint (origin : String) (start : Start) (url : String) : Prop where
  socket : IsSocket url.toList
  host : authority url.toList = authority (Text.trim origin).toList ∨
    ∃ full, start = .deepLink full ∧ IsSocket full.toList ∧
      authority url.toList = authority full.toList
  path : OnePath url.toList

def stripped (origin : String) : List Char :=
  origin.toList.rdropWhile (· = '/')

/-- A path is added where the origin does not end with it. -/
def added (origin path : String) : List Char :=
  if path.toList <:+ stripped origin then [] else path.toList

/-- The name of a host ends like a web scheme, and two slashes follow it. -/
def LikeScheme (host rest : List Char) : Prop :=
  ("http:".toList <:+ host ∨ "https:".toList <:+ host) ∧ "//".toList <+: rest

/-- An origin and a path make one endpoint once the scheme is exchanged. -/
structure Fits (origin path : String) : Prop where
  unlike : ∀ host rest, parts (stripped origin) = some (host, rest) → ¬ LikeScheme host rest
  tight : ∀ host, parts origin.toList = some (host, []) → Text.trim origin = origin
  joined : ∀ host, parts (stripped origin) = some (host, []) → Text.Ended (added origin path)
  path : OnePath (stripped origin ++ added origin path)

/-- An origin is a complete endpoint already, or it is a web origin that its path fits. -/
def Normalises (origin path : String) : Prop :=
  IsSocket origin.toList ∧ OnePath origin.toList ∨ IsWeb origin.toList ∧ Fits origin path

/-- What each start needs of its backend. -/
def Dialable (origin : String) : Start → Prop
  | .savedState => Normalises origin socketPath
  | .deepLink wsUrl =>
      IsSocket wsUrl.toList ∧ OnePath wsUrl.toList ∨
        ¬ IsSocket wsUrl.toList ∧ Normalises origin wsUrl
  | .localPair => IsSocket origin.toList ∧ OnePath origin.toList

/-- A checked backend is a scheme and a host, with white space around them at most. -/
structure Checked (origin : String) (lead scheme after trail : List Char) : Prop where
  text : origin.toList = lead ++ scheme ++ ':' :: '/' :: '/' :: after ++ trail
  trimmed : (Text.trim origin).toList = scheme ++ ':' :: '/' :: '/' :: after
  lead : ∀ char ∈ lead, Text.isWhitespace char = true
  trail : ∀ char ∈ trail, Text.isWhitespace char = true
  scheme : ∀ char ∈ scheme, char.isAlpha = true
  host : ∃ first more, after = first :: more ∧ first ≠ '/'

/-- The four schemes that a backend may have. -/
theorem scheme_of_ok {origin : String} (ok : validateBackendUrl origin = .ok ()) :
    ∃ scheme rest, Text.splitOnce "://".toList (Text.lower (Text.trim origin).toList) =
        some (scheme, rest) ∧
      (∃ known ∈ ["https", "wss", "http", "ws"], scheme = known.toList) ∧
      rest.takeWhile (· ≠ '/') ≠ [] := by
  unfold validateBackendUrl at ok
  dsimp only at ok
  split at ok
  · cases ok
  · split at ok
    · cases ok
    · rename_i scheme rest cut
      split at ok
      · cases ok
      · rename_i known
        split at ok
        · cases ok
        · rename_i host
          refine ⟨scheme, rest, cut, ?_, host⟩
          rw [Bool.not_eq_true, List.all_eq_false] at known
          simpa using known

theorem checked_of_ok {origin : String} (ok : validateBackendUrl origin = .ok ()) :
    ∃ lead scheme after trail, Checked origin lead scheme after trail := by
  obtain ⟨lowered, rest, cut, ⟨known, listed, rfl⟩, host⟩ := scheme_of_ok ok
  have whole := Text.splitOnce_some cut
  rw [Text.lower, List.append_assoc] at whole
  obtain ⟨scheme, later, parts, schemeSame, laterSame⟩ := List.map_eq_append_iff.mp whole
  obtain ⟨separator, after, rfl, separatorSame, afterSame⟩ := List.map_eq_append_iff.mp laterSame
  obtain rfl := @Text.lower_eq _ "://".toList (Text.forall_of_all (by decide)) separatorSame
  obtain ⟨lead, trail, text, leads, trails⟩ := Text.trim_parts origin
  refine ⟨lead, scheme, after, trail, ?_, parts, leads, trails, ?_, ?_⟩
  · rw [text, parts]
    simp
  · intro char member
    have inside : char.toLower ∈ known.toList := by
      rw [← schemeSame]
      exact List.mem_map_of_mem member
    have letters : ∀ known ∈ ["https", "wss", "http", "ws"], known.toList.all Char.isAlpha := by
      decide
    exact Text.isAlpha_of_toLower (List.all_eq_true.mp (letters known listed) _ inside)
  · cases after with
    | nil =>
        rw [← afterSame] at host
        exact absurd rfl host
    | cons first more =>
        refine ⟨first, more, rfl, ?_⟩
        rintro rfl
        rw [← afterSame] at host
        exact host rfl

section Exchange

/-- The web schemes are exchanged for those of a socket, the longer one first. -/
def converted (text : List Char) : List Char :=
  Text.rescheme "http".toList "ws".toList (Text.rescheme "https".toList "wss".toList text)

def convertedMark (mark : List Char) : List Char :=
  Text.renamed "http".toList "ws".toList (Text.renamed "https".toList "wss".toList mark)

theorem endpoint_toList (origin path : String) : (wsEndpointForOrigin origin path).toList =
    if IsSocket path.toList then path.toList
    else if IsSocket origin.toList then origin.toList
    else converted (stripped origin) ++ added origin path := by
  have socket : ∀ url : List Char, ("ws://".toList.isPrefixOf url || "wss://".toList.isPrefixOf url) =
      decide (IsSocket url) := by
    intro url
    rw [Bool.eq_iff_iff, Bool.or_eq_true, List.isPrefixOf_iff_prefix, List.isPrefixOf_iff_prefix,
      decide_eq_true_iff, IsSocket]
  have webs : "https".toList ++ ':' :: '/' :: '/' :: [] = "https://".toList ∧
      "wss".toList ++ ':' :: '/' :: '/' :: [] = "wss://".toList ∧
      "http".toList ++ ':' :: '/' :: '/' :: [] = "http://".toList ∧
      "ws".toList ++ ':' :: '/' :: '/' :: [] = "ws://".toList := by decide
  rw [wsEndpointForOrigin, socket, socket]
  simp only [decide_eq_true_eq]
  split
  · rfl
  · split
    · rfl
    · have plain : (String.ofList (stripped origin)).toList = stripped origin := String.toList_ofList
      have exchanged : (Text.replace (Text.replace (String.ofList (stripped origin)) "https://" "wss://")
          "http://" "ws://").toList = converted (stripped origin) := by
        rw [Text.toList_replace, Text.toList_replace, plain, converted, Text.rescheme, Text.rescheme,
          webs.1, webs.2.1, webs.2.2.1, webs.2.2.2]
      rw [← stripped, plain, added, apply_ite String.toList, String.toList_append, exchanged]
      split
      · rename_i ends
        rw [if_pos (List.isSuffixOf_iff_suffix.mp ends), List.append_nil]
      · rename_i ends
        rw [if_neg fun inside => ends (List.isSuffixOf_iff_suffix.mpr inside)]

theorem unended_https : Text.Unended "https".toList :=
  Text.unended_of_all (by decide)

theorem unended_http : Text.Unended "http".toList :=
  Text.unended_of_all (by decide)

theorem unended_wss : Text.Unended "wss".toList :=
  Text.unended_of_all (by decide)

theorem unended_ws : Text.Unended "ws".toList :=
  Text.unended_of_all (by decide)

theorem unended_renamed {old new text : List Char} (fresh : Text.Unended new)
    (free : Text.Unended text) : Text.Unended (Text.renamed old new text) := by
  rw [Text.renamed]
  split
  · intro char member
    rcases List.mem_append.mp member with inside | last
    · rcases List.mem_append.mp inside with kept | added
      · exact free char (List.take_subset _ _ kept)
      · exact fresh char added
    · obtain rfl := List.mem_singleton.mp last
      rfl
  · exact free

theorem converted_slashes {mark : List Char} (free : Text.Unended mark) (rest : List Char) :
    converted (mark ++ '/' :: '/' :: rest) = convertedMark mark ++ '/' :: '/' :: converted rest := by
  rw [converted, Text.rescheme_slashes unended_https free rest (by decide),
    Text.rescheme_slashes unended_http (unended_renamed unended_wss free) _ (by decide)]
  rfl

theorem scheme_iff {scheme mark : List Char} (scheming : Text.Unended scheme)
    (free : Text.Unended mark) (rest : List Char) :
    scheme ++ ':' :: '/' :: '/' :: [] <+: mark ++ '/' :: '/' :: rest ↔ mark = scheme ++ [':'] := by
  rw [Text.scheme_at scheming free (Text.ended_slashes rest)]
  exact and_iff_left ⟨rest, rfl⟩

theorem isSocket_iff {mark : List Char} (free : Text.Unended mark) (rest : List Char) :
    IsSocket (mark ++ '/' :: '/' :: rest) ↔ mark = "ws:".toList ∨ mark = "wss:".toList := by
  exact or_congr (scheme_iff unended_ws free rest) (scheme_iff unended_wss free rest)

theorem isWeb_iff {mark : List Char} (free : Text.Unended mark) (rest : List Char) :
    IsWeb (mark ++ '/' :: '/' :: rest) ↔ mark = "http:".toList ∨ mark = "https:".toList :=
  or_congr (scheme_iff unended_http free rest) (scheme_iff unended_https free rest)

/-- What the exchange does to the text before two slashes. -/
theorem convertedMark_cases (mark : List Char) :
    (∃ front, mark = front ++ "https:".toList ∧ convertedMark mark = front ++ "wss:".toList) ∨
      (∃ front, mark = front ++ "http:".toList ∧ convertedMark mark = front ++ "ws:".toList) ∨
      (¬ "https:".toList <:+ mark ∧ ¬ "http:".toList <:+ mark ∧ convertedMark mark = mark) := by
  have colons : "https".toList ++ [':'] = "https:".toList ∧ "http".toList ++ [':'] = "http:".toList ∧
      "wss".toList ++ [':'] = "wss:".toList ∧ "ws".toList ++ [':'] = "ws:".toList := by decide
  have rest : ∀ (old new front : List Char), Text.renamed old new (front ++ (old ++ [':'])) =
      front ++ (new ++ [':']) := by
    intro old new front
    have size : old.length + 1 = (old ++ [':']).length := by simp
    rw [Text.renamed, if_pos (List.suffix_append front _), size, List.rdrop_append_length,
      List.append_assoc]
  by_cases secure : "https".toList ++ [':'] <:+ mark
  · obtain ⟨front, rfl⟩ := secure
    have apart : ¬ "http".toList ++ [':'] <:+ front ++ ("wss".toList ++ [':']) := by
      intro inside
      rcases List.suffix_or_suffix_of_suffix inside (List.suffix_append front _) with short | long
      · exact absurd short (by decide)
      · exact absurd long (by decide)
    refine .inl ⟨front, by rw [colons.1], ?_⟩
    rw [convertedMark, rest, Text.renamed, if_neg apart, colons.2.2.1]
  · have first : Text.renamed "https".toList "wss".toList mark = mark := if_neg secure
    by_cases web : "http".toList ++ [':'] <:+ mark
    · obtain ⟨front, rfl⟩ := web
      refine .inr (.inl ⟨front, by rw [colons.2.1], ?_⟩)
      rw [convertedMark, first, rest, colons.2.2.2]
    · refine .inr (.inr ⟨colons.1 ▸ secure, colons.2.1 ▸ web, ?_⟩)
      rw [convertedMark, first, Text.renamed, if_neg web]

theorem convertedMark_socket (mark : List Char) (other : ¬ (mark = "ws:".toList ∨ mark = "wss:".toList)) :
    (convertedMark mark = "ws:".toList ∨ convertedMark mark = "wss:".toList) ↔
      mark = "http:".toList ∨ mark = "https:".toList := by
  constructor
  · rcases convertedMark_cases mark with ⟨front, rfl, same⟩ | ⟨front, rfl, same⟩ | ⟨-, -, same⟩
    · rw [same]
      rintro (short | exact)
      · have sizes := congrArg List.length short
        simp at sizes
      · right
        have empty : front = [] := List.append_left_eq_self.mp exact
        rw [empty, List.nil_append]
    · rw [same]
      rintro (exact | long)
      · left
        have empty : front = [] := List.append_left_eq_self.mp exact
        rw [empty, List.nil_append]
      · exfalso
        have sizes := congrArg List.length long
        obtain ⟨char, rfl⟩ : ∃ char, front = [char] := List.length_eq_one_iff.mp (by simpa using sizes)
        exact absurd (List.cons.inj long).2 (by decide)
    · rw [same]
      intro socket
      exact absurd socket other
  · rintro (rfl | rfl)
    · exact .inl (by decide)
    · exact .inr (by decide)

theorem converted_unlike {host rest : List Char} (free : Text.Unended host) (ended : Text.Ended rest)
    (unlike : ¬ LikeScheme host rest) :
    ∃ other, converted (host ++ rest) = host ++ other ∧ Text.Ended other ∧ (other = [] ↔ rest = []) := by
  obtain ⟨first, empty, slashes⟩ := @Text.rescheme_ended "https".toList "wss".toList
    unended_https (by decide) unended_wss (by decide) _ ended
  obtain ⟨second, void, -⟩ := @Text.rescheme_ended "http".toList "ws".toList
    unended_http (by decide) unended_ws (by decide) _ first
  refine ⟨_, ?_, second, void.trans empty⟩
  rw [converted, Text.rescheme_through unended_https free ended
      fun both => unlike ⟨.inr both.1, both.2⟩,
    Text.rescheme_through unended_http free first fun both => unlike ⟨.inl both.1, slashes both.2⟩]

/-- A host that is taken for a scheme is not the same host afterwards. -/
theorem converted_like {host rest : List Char} (free : Text.Unended host)
    (like : LikeScheme host rest) : ∃ name other, converted (host ++ rest) = name ++ other ∧
      Text.Unended name ∧ Text.Ended other ∧ other ≠ [] ∧ name ≠ host := by
  obtain ⟨named, later, rfl⟩ := like
  refine ⟨convertedMark host, '/' :: '/' :: converted later, converted_slashes free later,
    unended_renamed unended_ws (unended_renamed unended_wss free), Text.ended_slashes _, by simp, ?_⟩
  rcases convertedMark_cases host with ⟨front, same, changed⟩ | ⟨front, same, changed⟩ |
    ⟨notSecure, notPlain, -⟩
  · rw [changed, same]
    intro equal
    exact absurd (List.append_cancel_left equal) (by decide)
  · rw [changed, same]
    intro equal
    exact absurd (List.append_cancel_left equal) (by decide)
  · exact absurd named (not_or.mpr ⟨notPlain, notSecure⟩)

end Exchange

theorem parts_at {scheme host rest : List Char} (colonless : ':' ∉ scheme) (free : Text.Unended host)
    (ended : Text.Ended rest) :
    parts (scheme ++ ':' :: '/' :: '/' :: (host ++ rest)) = some (host, rest) := by
  have front := Text.takeWhile_cut free ended
  have back : (host ++ rest).dropWhile (fun char => !Text.ends char) = rest := by
    have whole := List.takeWhile_append_dropWhile (p := fun char => !Text.ends char) (l := host ++ rest)
    rw [front] at whole
    exact List.append_cancel_left whole
  rw [parts, Text.splitOnce_scheme colonless, Option.map_some, front, back]

/-- An origin is a scheme, a host and a rest, and slashes at its end are cut off. -/
structure Shape (origin : String) (scheme host rest slashes : List Char) : Prop where
  text : origin.toList = scheme ++ ':' :: '/' :: '/' :: (host ++ (rest ++ slashes))
  stripped : stripped origin = scheme ++ ':' :: '/' :: '/' :: (host ++ rest)
  colonless : ':' ∉ scheme
  schemeUnended : Text.Unended scheme
  hostUnended : Text.Unended host
  restEnded : Text.Ended rest
  wholeEnded : Text.Ended (rest ++ slashes)

theorem rdropWhile_append {gone : Char → Bool} {front back : List Char}
    (stays : ∃ char ∈ back, gone char = false) :
    (front ++ back).rdropWhile gone = front ++ back.rdropWhile gone := by
  obtain ⟨char, member, kept⟩ := stays
  have solid : (back.reverse.dropWhile gone).isEmpty = false := by
    rw [← Bool.not_eq_true, List.isEmpty_iff, List.dropWhile_eq_nil_iff]
    intro all
    rw [all char (List.mem_reverse.mpr member)] at kept
    cases kept
  rw [List.rdropWhile, List.reverse_append, List.dropWhile_append, solid, List.rdropWhile]
  simp

theorem separates {kind : Char → Bool} (apart : kind ':' = false ∧ kind '/' = false ∧
    kind '?' = false ∧ kind '#' = false) {char : Char} (own : kind char = true) :
    char ≠ ':' ∧ Text.ends char = false := by
  obtain ⟨colon, slash, question, hash⟩ := apart
  constructor
  · rintro rfl
    rw [colon] at own
    cases own
  · rw [← Bool.not_eq_true, Text.ends, Bool.or_eq_true, Bool.or_eq_true, decide_eq_true_iff,
      decide_eq_true_iff, decide_eq_true_iff]
    rintro ((rfl | rfl) | rfl)
    · rw [slash] at own
      cases own
    · rw [question] at own
      cases own
    · rw [hash] at own
      cases own

theorem Checked.separated {origin : String} {lead scheme after trail : List Char}
    (checked : Checked origin lead scheme after trail) :
    ∀ char ∈ lead ++ scheme, char ≠ ':' ∧ Text.ends char = false := by
  intro char member
  rcases List.mem_append.mp member with white | letter
  · exact separates (by decide) (checked.lead char white)
  · exact separates (by decide) (checked.scheme char letter)

theorem Checked.shape {origin : String} {lead scheme after trail : List Char}
    (checked : Checked origin lead scheme after trail) :
    ∃ host rest slashes, Shape origin (lead ++ scheme) host rest slashes ∧
      after ++ trail = host ++ (rest ++ slashes) ∧ ∀ char ∈ slashes, char = '/' := by
  obtain ⟨first, more, begins, other⟩ := checked.host
  have separated := checked.separated
  have stays : ∃ char ∈ after ++ trail, decide (char = '/') = false :=
    ⟨first, by simp [begins], by simpa using other⟩
  have text : origin.toList = (lead ++ scheme ++ ':' :: '/' :: '/' :: []) ++ (after ++ trail) := by
    rw [checked.text]
    simp
  obtain ⟨host, rest, cut, free, ended⟩ :=
    Text.exists_cut ((after ++ trail).rdropWhile fun char => char = '/')
  have whole := List.rdropWhile_append_rtakeWhile (p := fun char : Char => decide (char = '/'))
    (l := after ++ trail)
  have slashes : ∀ char ∈ (after ++ trail).rtakeWhile (fun char => char = '/'), char = '/' :=
    fun char member => by simpa using List.mem_rtakeWhile_imp member
  rw [cut, List.append_assoc] at whole
  refine ⟨host, rest, _, ⟨?_, ?_, fun member => (separated ':' member).1 rfl,
    fun char member => (separated char member).2, free, ended, ?_⟩, whole.symm, slashes⟩
  · rw [text, whole]
    simp
  · rw [ClientStart.stripped, text, rdropWhile_append stays, cut]
    simp
  · cases rest with
    | nil =>
        intro char member
        rw [slashes char (List.mem_of_mem_head? member)]
        rfl
    | cons head rest => exact ended

/-- The host of a web origin is read without the white space that may follow it. -/
theorem Checked.authority_trim {origin : String} {lead scheme after trail : List Char}
    (checked : Checked origin lead scheme after trail) (leadless : lead = [])
    {host rest : List Char} (free : Text.Unended host) (ended : Text.Ended rest)
    (same : after ++ trail = host ++ rest) :
    ∃ name, authority (Text.trim origin).toList = some name ∧ name <+: host ∧
      (name = host ↔ (rest = [] → Text.trim origin = origin)) := by
  have trailless : Text.trim origin = origin ↔ trail = [] := by
    rw [← String.toList_inj, checked.trimmed, checked.text, leadless]
    simp
  have white : Text.Unended trail := fun char member =>
    (separates (by decide) (checked.trail char member)).2
  obtain ⟨name, later, cut, nameFree, laterEnded⟩ := Text.exists_cut after
  have read : authority (Text.trim origin).toList = some name := by
    rw [checked.trimmed, cut, authority, parts_at
      (fun member => (checked.separated ':' (List.mem_append_right _ member)).1 rfl) nameFree laterEnded]
    rfl
  refine ⟨name, read, ?_⟩
  rw [trailless]
  subst cut
  cases later with
  | nil =>
      have unended : Text.Unended (name ++ trail) := fun char member =>
        (List.mem_append.mp member).elim (nameFree char) (white char)
      have nothing : Text.Ended [] := by
        intro char member
        cases member
      rw [List.append_nil, ← List.append_nil (name ++ trail)] at same
      obtain ⟨rfl, rfl⟩ := Text.cut_unique unended free nothing ended same
      simp
  | cons head later =>
      have stops : Text.Ended (head :: later ++ trail) := laterEnded
      rw [List.append_assoc] at same
      obtain ⟨rfl, rfl⟩ := Text.cut_unique nameFree free stops ended same
      simp

theorem ended_append {front : List Char} (ended : Text.Ended front) (some : front ≠ [])
    (back : List Char) : Text.Ended (front ++ back) := by
  cases front with
  | nil => exact absurd rfl some
  | cons head front => exact ended

theorem authority_converted {mark : List Char} (socket : mark = "ws:".toList ∨ mark = "wss:".toList)
    {host rest : List Char} (free : Text.Unended host) (ended : Text.Ended rest) :
    authority (mark ++ '/' :: '/' :: (host ++ rest)) = some host := by
  rcases socket with rfl | rfl
  · have colonless : ':' ∉ "ws".toList := by decide
    exact congrArg (Option.map Prod.fst) (parts_at colonless free ended)
  · have colonless : ':' ∉ "wss".toList := by decide
    exact congrArg (Option.map Prod.fst) (parts_at colonless free ended)

/-- The host of a web origin stays the host of its endpoint just where it fits the path. -/
theorem host_iff {origin : String} {lead scheme after trail : List Char}
    (checked : Checked origin lead scheme after trail) (leadless : lead = [])
    {mark : List Char} (socket : mark = "ws:".toList ∨ mark = "wss:".toList)
    {host rest slashes : List Char} (shape : Shape origin (lead ++ scheme) host rest slashes)
    (same : after ++ trail = host ++ (rest ++ slashes)) (path : List Char) :
    authority (mark ++ '/' :: '/' :: (converted (host ++ rest) ++ path)) =
        authority (Text.trim origin).toList ↔
      ¬ LikeScheme host rest ∧ (rest ++ slashes = [] → Text.trim origin = origin) ∧
        (rest = [] → Text.Ended path) := by
  obtain ⟨name, read, short, tight⟩ :=
    checked.authority_trim leadless shape.hostUnended shape.wholeEnded same
  rw [read]
  by_cases like : LikeScheme host rest
  · obtain ⟨other, later, exchanged, otherFree, laterEnded, some, changed⟩ :=
      converted_like shape.hostUnended like
    have followed : rest ++ slashes ≠ [] := by
      obtain ⟨-, more, rfl⟩ := like
      simp
    obtain rfl := tight.mpr fun empty => absurd empty followed
    rw [exchanged, List.append_assoc, authority_converted socket otherFree
      (ended_append laterEnded some path), Option.some.injEq]
    simp [changed, like]
  · obtain ⟨other, exchanged, otherEnded, nothing⟩ :=
      converted_unlike shape.hostUnended shape.restEnded like
    rw [exchanged, List.append_assoc, ← tight]
    by_cases empty : rest = []
    · obtain ⟨front, back, rfl, frontFree, backEnded⟩ := Text.exists_cut path
      have whole : Text.Unended (host ++ front) := fun char member =>
        (List.mem_append.mp member).elim (shape.hostUnended char) (frontFree char)
      rw [nothing.mpr empty, List.nil_append, ← List.append_assoc,
        authority_converted socket whole backEnded, Option.some.injEq]
      constructor
      · rintro rfl
        have stays : front = [] := by
          have sizes := short.length_le
          rw [List.length_append] at sizes
          exact List.eq_nil_of_length_eq_zero (by omega)
        subst stays
        exact ⟨like, List.append_nil host, fun _ => backEnded⟩
      · rintro ⟨-, rfl, joined⟩
        cases front with
        | nil => exact List.append_nil name
        | cons first front =>
            have ends := joined empty first rfl
            rw [frontFree first List.mem_cons_self] at ends
            cases ends
    · have some : other ≠ [] := fun void => empty (nothing.mp void)
      rw [authority_converted socket shape.hostUnended (ended_append otherEnded some path),
        Option.some.injEq]
      constructor
      · rintro rfl
        exact ⟨like, rfl, fun void => absurd void empty⟩
      · rintro ⟨-, rfl, -⟩
        rfl

theorem colonless_path : ':' ∉ socketPath.toList := by
  decide

theorem onePath_converted (text more : List Char) :
    OnePath (converted text ++ more) ↔ OnePath (text ++ more) := by
  have twice : ':' ∉ socketPath.toList ++ socketPath.toList := by decide
  have ends := (@Text.suffix_rescheme "http".toList "ws".toList _ colonless_path
    (Text.rescheme "https".toList "wss".toList text) more).trans
      (Text.suffix_rescheme colonless_path text more)
  have once := (@Text.suffix_rescheme "http".toList "ws".toList _ twice
    (Text.rescheme "https".toList "wss".toList text) more).trans
      (Text.suffix_rescheme twice text more)
  exact ⟨fun path => ⟨ends.mp path.ends, fun inside => path.once (once.mpr inside)⟩,
    fun path => ⟨ends.mpr path.ends, fun inside => path.once (once.mp inside)⟩⟩

/-- A complete endpoint has no white space around it. -/
theorem trim_of_socket {origin : String} (socket : IsSocket origin.toList)
    (path : OnePath origin.toList) : Text.trim origin = origin := by
  obtain ⟨front, ends⟩ := path.ends
  have last : origin.toList.getLast? = some 's' := by
    rw [← ends, List.getLast?_append]
    rfl
  rcases socket with ⟨rest, begins⟩ | ⟨rest, begins⟩
  · exact @Text.trim_of_ends 'w' _ 's' (by decide) (by decide) _ ⟨begins.symm, last⟩
  · exact @Text.trim_of_ends 'w' _ 's' (by decide) (by decide) _ ⟨begins.symm, last⟩

theorem Checked.markUnended {origin : String} {lead scheme after trail : List Char}
    (checked : Checked origin lead scheme after trail) :
    Text.Unended (lead ++ scheme ++ [':']) := by
  intro char member
  rcases List.mem_append.mp member with inside | last
  · exact (checked.separated char inside).2
  · obtain rfl := List.mem_singleton.mp last
    rfl

theorem Checked.leadless {origin : String} {lead scheme after trail : List Char}
    (checked : Checked origin lead scheme after trail)
    (web : lead ++ scheme ++ [':'] = "http:".toList ∨ lead ++ scheme ++ [':'] = "https:".toList) :
    lead = [] := by
  cases lead with
  | nil => rfl
  | cons char lead =>
      have letter : char = 'h' := by
        rcases web with same | same
        · exact (List.cons.inj same).1
        · exact (List.cons.inj same).1
      have white := checked.lead char List.mem_cons_self
      rw [letter] at white
      exact absurd white (by decide)

theorem fits_iff {origin : String} {scheme host rest slashes : List Char}
    (shape : Shape origin scheme host rest slashes) (path : String) :
    Fits origin path ↔ (¬ LikeScheme host rest ∧ (rest ++ slashes = [] → Text.trim origin = origin) ∧
      (rest = [] → Text.Ended (added origin path))) ∧
        OnePath (stripped origin ++ added origin path) := by
  have short : parts (stripped origin) = some (host, rest) := by
    rw [shape.stripped]
    exact parts_at shape.colonless shape.hostUnended shape.restEnded
  have whole : parts origin.toList = some (host, rest ++ slashes) := by
    rw [shape.text]
    exact parts_at shape.colonless shape.hostUnended shape.wholeEnded
  constructor
  · intro fits
    refine ⟨⟨fits.unlike host rest short, ?_, ?_⟩, fits.path⟩
    · intro empty
      exact fits.tight host (by rw [whole, empty])
    · intro empty
      exact fits.joined host (by rw [short, empty])
  · rintro ⟨⟨unlike, tight, joined⟩, path⟩
    refine ⟨?_, ?_, ?_, path⟩
    · intro other later same
      obtain ⟨rfl, rfl⟩ := Prod.mk.inj (Option.some.inj (short.symm.trans same))
      exact unlike
    · intro other same
      exact tight (Prod.mk.inj (Option.some.inj (whole.symm.trans same))).2
    · intro other same
      exact joined (Prod.mk.inj (Option.some.inj (short.symm.trans same))).2

/-- An endpoint speaks to a socket just where its origin has a scheme in small letters. -/
theorem Checked.isSocket_endpoint {origin : String} {lead scheme after trail : List Char}
    (checked : Checked origin lead scheme after trail) {path : String}
    (relative : ¬ IsSocket path.toList) :
    IsSocket (wsEndpointForOrigin origin path).toList ↔
      IsSocket origin.toList ∨ IsWeb origin.toList := by
  obtain ⟨host, rest, slashes, shape, -, -⟩ := checked.shape
  have free := checked.markUnended
  have marked : origin.toList =
      (lead ++ scheme ++ [':']) ++ '/' :: '/' :: (host ++ (rest ++ slashes)) := by
    rw [shape.text]
    simp
  rw [endpoint_toList, if_neg relative]
  split
  · rename_i socket
    exact iff_of_true socket (.inl socket)
  · rename_i other
    have cut : converted (stripped origin) ++ added origin path =
        convertedMark (lead ++ scheme ++ [':']) ++
          '/' :: '/' :: (converted (host ++ rest) ++ added origin path) := by
      have front : stripped origin = (lead ++ scheme ++ [':']) ++ '/' :: '/' :: (host ++ rest) := by
        rw [shape.stripped]
        simp
      rw [front, converted_slashes free, List.append_assoc]
      rfl
    have freeMark : Text.Unended (convertedMark (lead ++ scheme ++ [':'])) :=
      unended_renamed unended_ws (unended_renamed unended_wss free)
    rw [or_iff_right other, cut, isSocket_iff freeMark, convertedMark_socket, marked, isWeb_iff free]
    rwa [marked, isSocket_iff free] at other

/-- A checked backend with a path gives an endpoint of its own just where it normalises. -/
theorem endpoint_iff {origin : String} (ok : validateBackendUrl origin = .ok ()) {path : String}
    (relative : ¬ IsSocket path.toList) :
    (IsSocket (wsEndpointForOrigin origin path).toList ∧
      authority (wsEndpointForOrigin origin path).toList = authority (Text.trim origin).toList ∧
        OnePath (wsEndpointForOrigin origin path).toList) ↔ Normalises origin path := by
  obtain ⟨lead, scheme, after, trail, checked⟩ := checked_of_ok ok
  obtain ⟨host, rest, slashes, shape, same, -⟩ := checked.shape
  have free := checked.markUnended
  have marked : origin.toList =
      (lead ++ scheme ++ [':']) ++ '/' :: '/' :: (host ++ (rest ++ slashes)) := by
    rw [shape.text]
    simp
  have cut : stripped origin = (lead ++ scheme ++ [':']) ++ '/' :: '/' :: (host ++ rest) := by
    rw [shape.stripped]
    simp
  rw [endpoint_toList, if_neg relative, Normalises]
  split
  · rename_i socket
    have other : ¬ IsWeb origin.toList := by
      rw [marked, isSocket_iff free] at socket
      rw [marked, isWeb_iff free]
      rcases socket with same | same
      · rw [same]
        decide
      · rw [same]
        decide
    constructor
    · rintro ⟨-, -, path⟩
      exact .inl ⟨socket, path⟩
    · rintro (⟨-, path⟩ | ⟨web, -⟩)
      · exact ⟨socket, by rw [trim_of_socket socket path], path⟩
      · exact absurd web other
  · rename_i noSocket
    have url : converted (stripped origin) ++ added origin path =
        convertedMark (lead ++ scheme ++ [':']) ++
          '/' :: '/' :: (converted (host ++ rest) ++ added origin path) := by
      rw [cut, converted_slashes free, List.append_assoc]
      rfl
    have freeMark : Text.Unended (convertedMark (lead ++ scheme ++ [':'])) :=
      unended_renamed unended_ws (unended_renamed unended_wss free)
    have socket := checked.isSocket_endpoint relative
    rw [endpoint_toList, if_neg relative, if_neg noSocket, or_iff_right noSocket] at socket
    rw [socket, onePath_converted, fits_iff shape, or_iff_right fun both => noSocket both.1]
    refine and_congr_right fun web => and_congr_left fun _ => ?_
    have leadless := checked.leadless ((isWeb_iff free _).mp (marked ▸ web))
    have exchanged := isSocket_iff freeMark (converted (host ++ rest) ++ added origin path)
    rw [← url, socket] at exchanged
    rw [url]
    exact host_iff checked leadless (exchanged.mp web) shape same _

/-- A start dials an endpoint of a checked backend if and only if it has what it needs of it. -/
theorem dialled_iff {origin : String} (ok : validateBackendUrl origin = .ok ()) (start : Start) :
    OneEndpoint origin start (dialled origin start) ↔ Dialable origin start := by
  cases start with
  | savedState =>
      have relative : ¬ IsSocket socketPath.toList := by decide
      rw [Dialable, ← endpoint_iff ok relative]
      constructor
      · rintro ⟨socket, own | ⟨full, other, -⟩, path⟩
        · exact ⟨socket, own, path⟩
        · cases other
      · rintro ⟨socket, own, path⟩
        exact ⟨socket, .inl own, path⟩
  | deepLink wsUrl =>
      by_cases full : IsSocket wsUrl.toList
      · have verbatim : dialled origin (.deepLink wsUrl) = wsUrl := by
          rw [← String.toList_inj, dialled, endpoint_toList, if_pos full]
        rw [verbatim, Dialable]
        constructor
        · rintro ⟨-, -, path⟩
          exact .inl ⟨full, path⟩
        · rintro (⟨-, path⟩ | ⟨relative, -⟩)
          · exact ⟨full, .inr ⟨wsUrl, rfl, full, rfl⟩, path⟩
          · exact absurd full relative
      · rw [Dialable, or_iff_right fun both => full both.1, and_iff_right full, ← endpoint_iff ok full]
        constructor
        · rintro ⟨socket, own | ⟨other, same, named, -⟩, path⟩
          · exact ⟨socket, own, path⟩
          · cases same
            exact absurd named full
        · rintro ⟨socket, own, path⟩
          exact ⟨socket, .inl own, path⟩
  | localPair =>
      constructor
      · rintro ⟨socket, -, path⟩
        exact ⟨socket, path⟩
      · rintro ⟨socket, path⟩
        exact ⟨socket, .inl (by rw [dialled, trim_of_socket socket path]), path⟩

/-- The client that an event starts has an endpoint of its backend. -/
def DialsEndpoint (configured : String) (stateFile : DaemonState) (event : Event) : Prop :=
  ∀ dial origin start, (outcome configured stateFile event).2 = some dial →
    dial.backend = some (origin, start) → OneEndpoint origin start dial.url

/-- The backend of the client that an event starts has what the start needs. -/
def BackendDialable (configured : String) (stateFile : DaemonState) (event : Event) : Prop :=
  ∀ dial origin start, (outcome configured stateFile event).2 = some dial →
    dial.backend = some (origin, start) → Dialable origin start

/-- Every backend that is kept was checked. -/
def Kept (stateFile : DaemonState) : Prop :=
  ∀ origin, stateFile.backendUrl = some origin → validateBackendUrl origin = .ok ()

theorem kept_unpaired : Kept .unpaired := by
  intro origin same
  cases same

theorem kept_save {stateFile daemonState : DaemonState} (old : Kept stateFile)
    (new : Kept daemonState) (saved : LocalServer.SaveOutcome) :
    Kept (save stateFile daemonState saved) := by
  cases saved with
  | written => exact new
  | kept => exact old
  | torn => exact kept_unpaired

theorem complete_some {backend : String} {completes : Option Completed} {done : Completed}
    (same : complete backend completes = some done) : validateBackendUrl backend = .ok () := by
  unfold complete at same
  split at same
  · cases same
  · rename_i ok
    exact ok

theorem kept_pairing {device backend : String} (ok : validateBackendUrl backend = .ok ()) :
    Kept ⟨some device, some backend⟩ := by
  rintro origin ⟨⟩
  exact ok

/-- What an event leaves and dials comes from a checked backend. -/
theorem outcome_checked (configured : String) {stateFile : DaemonState} (kept : Kept stateFile)
    (event : Event) : Kept (outcome configured stateFile event).1 ∧
      ∀ dial origin start, (outcome configured stateFile event).2 = some dial →
        dial.backend = some (origin, start) →
          validateBackendUrl origin = .ok () ∧ dial.url = dialled origin start := by
  have silent : ∀ (dial : Dial) (origin : String) (start : Start), (none : Option Dial) = some dial →
      dial.backend = some (origin, start) →
        validateBackendUrl origin = .ok () ∧ dial.url = dialled origin start := nofun
  have named : ∀ {backend : String} {way : Start}, validateBackendUrl backend = .ok () →
      ∀ (dial : Dial) (origin : String) (start : Start),
        some (Dial.mk (some (backend, way)) (dialled backend way)) = some dial →
          dial.backend = some (origin, start) →
            validateBackendUrl origin = .ok () ∧ dial.url = dialled origin start := by
    rintro backend way ok _ origin start ⟨⟩ ⟨⟩
    exact ⟨ok, rfl⟩
  cases event with
  | link sent completes saved =>
      unfold outcome
      dsimp only
      split
      · split
        · exact ⟨kept, silent⟩
        · rename_i same
          have ok := complete_some same
          exact ⟨kept_save kept (kept_pairing ok) saved, named ok⟩
      · exact ⟨kept, silent⟩
  | localPair backendUrl deviceId saved =>
      unfold outcome
      dsimp only
      split
      · exact ⟨kept, silent⟩
      · rename_i ok
        exact ⟨kept_save kept (kept_pairing ok) saved, named ok⟩
  | commandPair backend completes saved =>
      unfold outcome
      dsimp only
      split
      · exact ⟨kept, silent⟩
      · rename_i same
        exact ⟨kept_save kept (kept_pairing (complete_some same)) saved, silent⟩
  | unpair saved => exact ⟨kept_save kept kept_unpaired saved, silent⟩
  | startup =>
      unfold outcome
      dsimp only
      split
      · exact ⟨kept, silent⟩
      · split
        · refine ⟨kept, ?_⟩
          rintro _ origin start ⟨⟩ ⟨⟩
        · rename_i origin same
          exact ⟨kept, named (kept origin same)⟩

def localPairing : Event :=
  .localPair "https://synthhires.com" "device" .written

/-- A local pairing hands the origin of the page to the client as it is. -/
theorem localPairing_dials_origin :
    ¬ Throughout (fun before event => DialsEndpoint "wss://synthhires.com/api/devices/ws"
      (run (step "wss://synthhires.com/api/devices/ws") .unpaired before) event) [localPairing] := by
  intro all
  have right := all [] localPairing [] rfl
  have ok : validateBackendUrl "https://synthhires.com" = .ok () := by decide
  have told : (outcome "wss://synthhires.com/api/devices/ws" .unpaired localPairing).2 =
      some ⟨some ("https://synthhires.com", .localPair), "https://synthhires.com"⟩ := by
    rw [localPairing, outcome, ok]
    rfl
  exact absurd (right _ _ _ told rfl).socket (by decide)

/-- In a run of pairings and restarts each client gets one endpoint of its backend if and only if
each of these backends has what its start needs. -/
theorem every_dial_one_endpoint_iff (configured : String) (events : List Event) :
    Throughout (fun before event =>
        DialsEndpoint configured (run (step configured) .unpaired before) event) events ↔
      Throughout (fun before event =>
        BackendDialable configured (run (step configured) .unpaired before) event) events := by
  refine Throughout.iff_of_step Kept (DialsEndpoint configured) (BackendDialable configured) kept_unpaired
    ?_ (fun _ event kept _ => (outcome_checked configured kept event).1) events
  intro stateFile event kept
  refine forall_congr' fun dial => forall_congr' fun origin => forall_congr' fun start =>
    forall_congr' fun told => forall_congr' fun named => ?_
  obtain ⟨ok, url⟩ := (outcome_checked configured kept event).2 dial origin start told named
  rw [url]
  exact dialled_iff ok start

end ClientStart

end Daemon
