import SynthHiresBridge.Proof.BackendOrigins

namespace Daemon.ClientStart

open BackendUrl

/-- A text is given again up to a place where `h` became `w`. -/
inductive Turned : List Char → List Char → Prop
  | here (rest more : List Char) : Turned ('h' :: rest) ('w' :: more)
  | later (char : Char) {before after : List Char} (turned : Turned before after) :
      Turned (char :: before) (char :: after)

section Turned

theorem Turned.front {before after : List Char} (turned : Turned before after) (front : List Char) :
    Turned (front ++ before) (front ++ after) := by
  induction front with
  | nil => exact turned
  | cons char front ih => exact ih.later char

theorem Turned.append {before after : List Char} (turned : Turned before after)
    (rest more : List Char) : Turned (before ++ rest) (after ++ more) := by
  induction turned with
  | here first second => exact .here _ _
  | later char _ ih => exact ih.later char

theorem Turned.trans {first second third : List Char} (turned : Turned first second)
    (again : Turned second third) : Turned first third := by
  induction turned generalizing third with
  | here rest more =>
      cases again with
      | later _ _ => exact .here _ _
  | later char _ ih =>
      cases again with
      | here _ _ => exact .here _ _
      | later _ again => exact (ih again).later char

theorem Turned.cancel {front before after : List Char}
    (turned : Turned (front ++ before) (front ++ after)) : Turned before after := by
  induction front with
  | nil => exact turned
  | cons char front ih =>
      apply ih
      generalize first : (char :: front) ++ before = text at turned
      generalize second : (char :: front) ++ after = other at turned
      cases turned with
      | here _ _ =>
          have left := (List.cons.inj first).1
          have right := (List.cons.inj second).1
          rw [left] at right
          exact absurd right (by decide)
      | later _ turned =>
          rw [← (List.cons.inj first).2, ← (List.cons.inj second).2] at turned
          exact turned

theorem Turned.mem {before after : List Char} (turned : Turned before after) : 'h' ∈ before := by
  induction turned with
  | here _ _ => exact List.mem_cons_self
  | later char _ ih => exact List.mem_cons_of_mem char ih

theorem not_turned (front rest : List Char) : ¬ Turned (front ++ rest) front := by
  intro turned
  rw [← List.append_nil front, List.append_assoc] at turned
  cases turned.cancel

/-- Without a web scheme a text stays, and with one it is turned. -/
theorem converted_cases (text : List Char) :
    (¬ "http://".toList <:+: text ∧ ¬ "https://".toList <:+: text ∧ converted text = text) ∨
      (("http://".toList <:+: text ∨ "https://".toList <:+: text) ∧ Turned text (converted text)) := by
  have parts : "http".toList ++ ':' :: '/' :: '/' :: [] = "http://".toList ∧
      "https".toList ++ ':' :: '/' :: '/' :: [] = "https://".toList := by decide
  have turned : ∀ {old new : List Char} (front later other : List Char),
      Turned (front ++ (('h' :: old) ++ later)) (front ++ (('w' :: new) ++ other)) :=
    fun front _ _ => (Turned.here _ _).front front
  rw [converted, Text.rescheme, Text.rescheme, parts.1, parts.2]
  rcases Text.replaceAll_first ("wss".toList ++ ':' :: '/' :: '/' :: [])
    (show "https://".toList ≠ [] by decide) text with ⟨secureless, stays⟩ | ⟨front, later, same, changed⟩
  · rw [stays]
    rcases Text.replaceAll_first ("ws".toList ++ ':' :: '/' :: '/' :: [])
      (show "http://".toList ≠ [] by decide) text with ⟨plainless, kept⟩ | ⟨front, later, same, changed⟩
    · exact .inl ⟨plainless, secureless, kept⟩
    · refine .inr ⟨.inl ⟨front, later, by rw [same, List.append_assoc]⟩, ?_⟩
      rw [changed]
      conv_lhs => rw [same]
      exact turned front later _
  · have first : Turned text (Text.replaceAll "https://".toList
        ("wss".toList ++ ':' :: '/' :: '/' :: []) text) := by
      rw [changed]
      conv_lhs => rw [same]
      exact turned front later _
    refine .inr ⟨.inr ⟨front, later, by rw [same, List.append_assoc]⟩, ?_⟩
    generalize Text.replaceAll "https://".toList _ text = middle at first
    rcases Text.replaceAll_first ("ws".toList ++ ':' :: '/' :: '/' :: [])
      (show "http://".toList ≠ [] by decide) middle with ⟨-, kept⟩ | ⟨front, later, same, changed⟩
    · rw [kept]
      exact first
    · apply first.trans
      rw [changed]
      conv_lhs => rw [same]
      exact turned front later _

end Turned

def Slashes (text : List Char) : Prop :=
  ∀ char ∈ text, char = '/'

/-- What stands after the base path of an origin: slashes, or the path of the socket before them. -/
def Trailing (path given : List Char) : Prop :=
  Slashes given ∨ ∃ slashes, given = path ++ slashes ∧ Slashes slashes

/-- A URL is the endpoint of an origin: it has the socket's scheme, the host, the port and the base
path of the origin and the path of the socket once, and it is an endpoint of itself. -/
structure Normal (origin path url : String) : Prop where
  socket : IsSocket url.toList
  secure : "wss://".toList <+: url.toList ↔ ∃ scheme rest,
    (Text.trim origin).toList = spelled scheme rest ∧ Text.lower scheme ∈ secureSchemes
  place : ∃ host base given, parts (Text.trim origin).toList = some (host, base ++ given) ∧
    Trailing path.toList given ∧ parts url.toList = some (host, base ++ path.toList)
  once : ¬ path.toList ++ path.toList <:+ url.toList
  again : wsEndpointForOrigin url path = url

/-- A URL has the path of the socket after its host, and it ends with it once. -/
structure Carries (path url : List Char) : Prop where
  place : ∀ host rest, parts url = some (host, rest) → path <:+ rest
  once : ¬ path ++ path <:+ url

/-- An origin that is normalised: its scheme is in small letters, no other web scheme stands in it,
no white space stands around it that is not part of the path, and where it is an endpoint already
or ends like one, it has the path after its host and once. -/
structure Regular (origin path : String) : Prop where
  scheme : IsSocket origin.toList ∨ IsWeb origin.toList
  single : IsWeb origin.toList → ∀ host rest, parts (stripped origin) = some (host, rest) →
    ¬ "http://".toList <:+: host ++ rest ∧ ¬ "https://".toList <:+: host ++ rest
  tight : Text.trim origin = origin ∨ path.toList <:+ origin.toList ∧ ∃ slashes trail,
    path.toList = slashes ++ trail ∧ Slashes slashes ∧
      origin.toList = (Text.trim origin).toList ++ trail
  whole : IsSocket origin.toList → Carries path.toList origin.toList
  ended : IsWeb origin.toList → path.toList <:+ stripped origin →
    Carries path.toList (stripped origin)

section Place

theorem ended_front {front back : List Char} (ended : Text.Ended (front ++ back)) :
    Text.Ended front := by
  cases front with
  | nil => nofun
  | cons head front => exact ended

theorem append_of_parts {scheme text host rest : List Char} (colonless : ':' ∉ scheme)
    (read : parts (spelled scheme text) = some (host, rest)) : text = host ++ rest := by
  rw [parts, spelled, Text.splitOnce_scheme colonless, Option.map_some] at read
  obtain ⟨rfl, rfl⟩ := Prod.mk.inj (Option.some.inj read)
  exact List.takeWhile_append_dropWhile.symm

theorem trailless {given trail slashes : List Char} (same : given ++ trail = slashes)
    (only : Slashes slashes) (white : ∀ char ∈ trail, Text.isWhitespace char = true) :
    trail = [] := by
  rw [List.eq_nil_iff_forall_not_mem]
  intro char member
  have slash := only char (same ▸ List.mem_append_right given member)
  have own := white char member
  rw [slash] at own
  exact absurd own (by decide)

variable {scheme host rest slashes after trail path : List Char}

/-- The rest of an origin with the path in it has a base. -/
theorem place_carried (colonless : ':' ∉ scheme) (free : Text.Unended host)
    (ended : Text.Ended (rest ++ slashes)) (only : Slashes slashes)
    (white : ∀ char ∈ trail, Text.isWhitespace char = true) (tail : trail ≠ [] → slashes = [])
    (same : after ++ trail = host ++ (rest ++ slashes)) :
    (∃ name base given, parts (spelled scheme after) = some (name, base ++ given) ∧
      Trailing path given ∧ some (host, rest) = some (name, base ++ path)) ↔
        path <:+ rest ∧ (trail = [] ∨ ∃ slashes, path = slashes ++ trail ∧ Slashes slashes) := by
  constructor
  · rintro ⟨name, base, given, read, trailing, own⟩
    obtain ⟨rfl, rfl⟩ := Prod.mk.inj (Option.some.inj own)
    refine ⟨List.suffix_append base path, ?_⟩
    have cut := append_of_parts colonless read
    rw [cut] at same
    have later : given ++ trail = path ++ slashes := by simpa using same
    rcases trailing with slashed | ⟨more, rfl, slashed⟩
    · by_cases empty : trail = []
      · exact .inl empty
      · rw [tail empty, List.append_nil] at later
        exact .inr ⟨given, later.symm, slashed⟩
    · left
      have last : more ++ trail = slashes := by simpa using later
      exact trailless last only white
  · rintro ⟨⟨base, rfl⟩, kind⟩
    rcases kind with rfl | ⟨front, rfl, slashed⟩
    · rw [List.append_nil] at same
      refine ⟨host, base, path ++ slashes, ?_, .inr ⟨slashes, rfl, only⟩, rfl⟩
      rw [same, spelled, parts_at colonless free ended, List.append_assoc]
    · by_cases empty : trail = []
      · subst empty
        rw [List.append_nil] at same
        refine ⟨host, base, (front ++ []) ++ slashes, ?_, .inr ⟨slashes, rfl, only⟩, rfl⟩
        rw [same, spelled, parts_at colonless free ended, List.append_assoc]
      · rw [tail empty, List.append_nil] at same ended
        refine ⟨host, base, front, ?_, .inl slashed, rfl⟩
        have cut : after = host ++ (base ++ front) := by
          have longer : after ++ trail = host ++ (base ++ front) ++ trail := by
            rw [same]
            simp
          exact List.append_cancel_right longer
        rw [← List.append_assoc] at ended
        rw [cut, spelled, parts_at colonless free (ended_front ended)]

/-- The path is added to the rest of an origin as its base. -/
theorem place_added (colonless : ':' ∉ scheme) (free : Text.Unended host)
    (ended : Text.Ended (rest ++ slashes)) (only : Slashes slashes)
    (white : ∀ char ∈ trail, Text.isWhitespace char = true)
    (same : after ++ trail = host ++ (rest ++ slashes)) :
    (∃ name base given, parts (spelled scheme after) = some (name, base ++ given) ∧
      Trailing path given ∧ some (host, rest ++ path) = some (name, base ++ path)) ↔ trail = [] := by
  constructor
  · rintro ⟨name, base, given, read, -, own⟩
    obtain ⟨rfl, based⟩ := Prod.mk.inj (Option.some.inj own)
    obtain rfl := List.append_cancel_right based
    have cut := append_of_parts colonless read
    rw [cut] at same
    have later : given ++ trail = slashes := by simpa using same
    exact trailless later only white
  · rintro rfl
    rw [List.append_nil] at same
    refine ⟨host, rest, slashes, ?_, .inl only, rfl⟩
    rw [same, spelled, parts_at colonless free ended]

/-- A host and a base path that stay leave no other scheme in the origin. -/
theorem not_turned_of_place (colonless : ':' ∉ scheme)
    (white : ∀ char ∈ trail, Text.isWhitespace char = true) {text other added : List Char}
    (same : after ++ trail = text ++ slashes) {mark : List Char} (marked : ':' ∉ mark)
    (place : ∃ name base given, parts (spelled scheme after) = some (name, base ++ given) ∧
      Trailing path given ∧ parts (spelled mark (other ++ added)) = some (name, base ++ path)) :
    ¬ Turned text other := by
  intro turned
  obtain ⟨name, base, given, read, trailing, url⟩ := place
  have cut := append_of_parts colonless read
  have whole := append_of_parts marked url
  have longer := turned.append slashes added
  rw [← same, cut, whole, List.append_assoc, List.append_assoc] at longer
  have last := longer.cancel.cancel
  rcases trailing with slashed | ⟨more, rfl, -⟩
  · rcases List.mem_append.mp last.mem with inside | after
    · exact absurd (slashed 'h' inside) (by decide)
    · exact absurd (white 'h' after) (by decide)
  · rw [List.append_assoc] at last
    exact not_turned _ _ last

end Place

section Scheme

theorem spelled_marked (scheme rest : List Char) :
    spelled scheme rest = (scheme ++ [':']) ++ '/' :: '/' :: rest := by
  rw [spelled, List.append_assoc]
  rfl

variable {scheme : List Char} (known : scheme ∈ WebUrl.schemes) (rest : List Char)

include known

theorem mark_unended : Text.Unended (scheme ++ [':']) := by
  have each : ∀ known ∈ WebUrl.schemes, ((known ++ [':']).all fun char => !Text.ends char) = true := by
    decide
  exact Text.unended_of_all (each scheme known)

theorem isSocket_spelled :
    IsSocket (spelled scheme rest) ↔ scheme = "ws".toList ∨ scheme = "wss".toList := by
  have each : ∀ known ∈ WebUrl.schemes, (known ++ [':'] = "ws:".toList ∨ known ++ [':'] = "wss:".toList ↔
      known = "ws".toList ∨ known = "wss".toList) := by decide
  rw [spelled_marked, isSocket_iff (mark_unended known), each scheme known]

theorem isWeb_spelled :
    IsWeb (spelled scheme rest) ↔ scheme = "http".toList ∨ scheme = "https".toList := by
  have each : ∀ known ∈ WebUrl.schemes, (known ++ [':'] = "http:".toList ∨
      known ++ [':'] = "https:".toList ↔ known = "http".toList ∨ known = "https".toList) := by decide
  rw [spelled_marked, isWeb_iff (mark_unended known), each scheme known]

theorem secure_spelled : "wss://".toList <+: spelled scheme rest ↔ scheme = "wss".toList := by
  have parts : "wss://".toList = "wss".toList ++ ':' :: '/' :: '/' :: [] := by decide
  rw [parts, spelled_marked, scheme_iff unended_wss (mark_unended known)]
  exact List.append_left_inj [':']

theorem converted_spelled : converted (spelled scheme rest) =
    spelled (if scheme = "http".toList then "ws".toList
      else if scheme = "https".toList then "wss".toList else scheme) (converted rest) := by
  have each : ∀ known ∈ WebUrl.schemes, convertedMark (known ++ [':']) =
      (if known = "http".toList then "ws".toList
        else if known = "https".toList then "wss".toList else known) ++ [':'] := by decide
  rw [spelled_marked, converted_slashes (mark_unended known), each scheme known, spelled,
    List.append_assoc]
  rfl

end Scheme

/-- An origin with a scheme in small letters and nothing before it. -/
structure Bare (origin : String) (scheme host rest slashes after trail : List Char) : Prop where
  text : origin.toList = spelled scheme (host ++ (rest ++ slashes))
  trimmed : (Text.trim origin).toList = spelled scheme after
  cut : stripped origin = spelled scheme (host ++ rest)
  same : after ++ trail = host ++ (rest ++ slashes)
  known : scheme ∈ WebUrl.schemes
  free : Text.Unended host
  restEnded : Text.Ended rest
  ended : Text.Ended (rest ++ slashes)
  only : Slashes slashes
  white : ∀ char ∈ trail, Text.isWhitespace char = true

section Bare

theorem Checked.bare {origin : String} {lead scheme after trail : List Char}
    (checked : Checked origin lead scheme after trail)
    (known : IsSocket origin.toList ∨ IsWeb origin.toList) :
    ∃ host rest slashes, Bare origin scheme host rest slashes after trail := by
  obtain ⟨host, rest, slashes, shape, same, only⟩ := checked.shape
  have marked : origin.toList =
      (lead ++ scheme ++ [':']) ++ '/' :: '/' :: (host ++ (rest ++ slashes)) := by
    rw [shape.text]
    simp
  have free := checked.markUnended
  have listed : lead ++ scheme ∈ WebUrl.schemes := by
    rw [marked, isSocket_iff free, isWeb_iff free] at known
    have colons : "ws:".toList = "ws".toList ++ [':'] ∧ "wss:".toList = "wss".toList ++ [':'] ∧
        "http:".toList = "http".toList ++ [':'] ∧ "https:".toList = "https".toList ++ [':'] := by
      decide
    rw [colons.1, colons.2.1, colons.2.2.1, colons.2.2.2] at known
    rcases known with (own | own) | (own | own)
    all_goals
      rw [List.append_cancel_right own]
      decide
  have leadless : lead = [] := by
    cases lead with
    | nil => rfl
    | cons char lead =>
        have letters : ∀ known ∈ WebUrl.schemes,
            (known.all fun char => decide (Text.isWhitespace char = false)) = true := by
          decide
        have own := Text.forall_of_all (letters _ listed) char List.mem_cons_self
        rw [checked.lead char List.mem_cons_self] at own
        cases own
  subst leadless
  exact ⟨host, rest, slashes, shape.text, checked.trimmed, shape.stripped, same, listed,
    shape.hostUnended, shape.restEnded, shape.wholeEnded, only, checked.trail⟩

variable {origin path : String} {scheme host rest slashes after trail : List Char}
  (bare : Bare origin scheme host rest slashes after trail)

include bare

theorem Bare.colonless : ':' ∉ scheme := by
  have each : ∀ known ∈ WebUrl.schemes, ':' ∉ known := by decide
  exact each scheme bare.known

theorem Bare.ends : origin.toList = (Text.trim origin).toList ++ trail := by
  rw [bare.trimmed, bare.text, ← bare.same]
  simp [spelled]

theorem Bare.trim_iff : Text.trim origin = origin ↔ trail = [] := by
  rw [← String.toList_inj]
  conv_lhs => rhs; rw [bare.ends]
  exact ⟨fun same => List.append_right_eq_self.mp same.symm, fun empty => by rw [empty, List.append_nil]⟩

theorem Bare.tail (some : trail ≠ []) : slashes = [] := by
  rcases List.eq_nil_or_concat' slashes with empty | ⟨front, last, rfl⟩
  · exact empty
  · rcases List.eq_nil_or_concat' trail with empty | ⟨before, space, rfl⟩
    · exact absurd empty some
    · have same := bare.same
      rw [← List.append_assoc, ← List.append_assoc, ← List.append_assoc] at same
      obtain ⟨-, own⟩ := List.append_inj' same rfl
      obtain rfl := (List.cons.inj own).1
      have slash := bare.only space (List.mem_append_right front List.mem_cons_self)
      have white := bare.white space (List.mem_append_right before List.mem_cons_self)
      rw [slash] at white
      exact absurd white (by decide)

theorem Bare.secure_iff : (∃ scheme rest, (Text.trim origin).toList = spelled scheme rest ∧
    Text.lower scheme ∈ secureSchemes) ↔ scheme ∈ secureSchemes := by
  have small : ∀ known ∈ WebUrl.schemes, Text.lower known = known := by decide
  have own := small scheme bare.known
  constructor
  · rintro ⟨other, more, text, secure⟩
    have also : Text.lower other ∈ WebUrl.schemes := List.mem_append_left plainSchemes secure
    have known : Text.lower scheme ∈ WebUrl.schemes := by
      rw [own]
      exact bare.known
    obtain ⟨rfl, -⟩ := spelled_inj known also (bare.trimmed.symm.trans text)
    rwa [own] at secure
  · intro secure
    refine ⟨scheme, after, bare.trimmed, ?_⟩
    rwa [own]

theorem Bare.tight_iff : (Text.trim origin = origin ∨ path.toList <:+ origin.toList ∧
    ∃ slashes trail, path.toList = slashes ++ trail ∧ Slashes slashes ∧
      origin.toList = (Text.trim origin).toList ++ trail) ↔
    trail = [] ∨ path.toList <:+ origin.toList ∧ ∃ slashes, path.toList = slashes ++ trail ∧
      Slashes slashes := by
  rw [bare.trim_iff]
  refine or_congr_right (and_congr_right fun _ => exists_congr fun front => ?_)
  constructor
  · rintro ⟨other, text, slashed, ends⟩
    rw [bare.ends] at ends
    obtain rfl := List.append_cancel_left ends
    exact ⟨text, slashed⟩
  · rintro ⟨text, slashed⟩
    exact ⟨trail, text, slashed, bare.ends⟩

/-- A complete endpoint is given back. -/
theorem Bare.socket_iff (relative : ¬ IsSocket path.toList) (socket : IsSocket origin.toList) :
    Normal origin path (wsEndpointForOrigin origin path) ↔ Regular origin path := by
  have url : wsEndpointForOrigin origin path = origin := by
    rw [← String.toList_inj, endpoint_toList, if_neg relative, if_pos socket]
  have named : scheme = "ws".toList ∨ scheme = "wss".toList := by
    rwa [bare.text, isSocket_spelled bare.known] at socket
  have other : ¬ IsWeb origin.toList := by
    rw [bare.text, isWeb_spelled bare.known]
    rcases named with rfl | rfl <;> decide
  have secure : "wss://".toList <+: origin.toList ↔ scheme ∈ secureSchemes := by
    rw [bare.text, secure_spelled bare.known]
    rcases named with rfl | rfl <;> decide
  have read : parts origin.toList = some (host, rest ++ slashes) := by
    rw [bare.text, spelled, parts_at bare.colonless bare.free bare.ended]
  have inside : rest ++ slashes <:+ origin.toList := by
    rw [bare.text, spelled]
    exact ((List.suffix_append host _).trans (List.suffix_append [':', '/', '/'] _)).trans
      (List.suffix_append scheme _)
  have place := @place_carried scheme host (rest ++ slashes) [] after trail path.toList
    bare.colonless bare.free (by rw [List.append_nil]; exact bare.ended)
    (fun _ member => absurd member List.not_mem_nil) bare.white
    (fun _ => rfl) (by rw [List.append_nil]; exact bare.same)
  rw [url]
  constructor
  · intro normal
    have placed := normal.place
    rw [bare.trimmed, read, place] at placed
    refine ⟨.inl socket, fun web => absurd web other, bare.tight_iff.mpr ?_, fun _ => ⟨?_, normal.once⟩,
      fun web => absurd web other⟩
    · exact placed.2.imp_right fun kind => ⟨placed.1.trans inside, kind⟩
    · intro name later own
      obtain ⟨-, rfl⟩ := Prod.mk.inj (Option.some.inj (read.symm.trans own))
      exact placed.1
  · intro regular
    have carried := regular.whole socket
    refine ⟨socket, secure.trans bare.secure_iff.symm, ?_, carried.once, url⟩
    rw [bare.trimmed, read, place]
    exact ⟨carried.place host _ read, (bare.tight_iff.mp regular.tight).imp_right And.right⟩

omit bare in
theorem suffix_mark {mark text part : List Char} (slashless : '/' ∉ mark)
    (absolute : ∃ more, part = '/' :: more) : part <:+ mark ++ text ↔ part <:+ text := by
  constructor
  · intro inside
    rcases List.suffix_or_suffix_of_suffix inside (List.suffix_append mark text) with short | long
    · exact short
    · obtain ⟨front, rfl⟩ := long
      obtain ⟨before, same⟩ := inside
      rw [← List.append_assoc] at same
      have cut := List.append_cancel_right same
      cases front with
      | nil => exact List.suffix_rfl
      | cons char front =>
          obtain ⟨more, begins⟩ := absolute
          obtain ⟨rfl, -⟩ := List.cons.inj begins
          exact absurd (cut ▸ List.mem_append_right before List.mem_cons_self) slashless
  · exact fun inside => inside.trans (List.suffix_append mark text)

omit bare in
theorem suffix_spelled {mark text part : List Char} (known : mark ∈ WebUrl.schemes)
    (absolute : ∃ more, part = '/' :: more) :
    part <:+ spelled mark text ↔ part <:+ '/' :: '/' :: text := by
  rw [spelled_marked]
  apply suffix_mark _ absolute
  intro slash
  exact absurd (mark_unended known '/' slash) (by decide)

/-- The endpoint of a web origin before its path. -/
theorem Bare.endpoint (relative : ¬ IsSocket path.toList) (web : IsWeb origin.toList) : ∃ mark,
    (wsEndpointForOrigin origin path).toList =
      spelled mark (converted (host ++ rest) ++ added origin path) ∧
    mark ∈ WebUrl.schemes ∧ (mark = "ws".toList ∨ mark = "wss".toList) ∧
    (mark = "wss".toList ↔ scheme ∈ secureSchemes) := by
  have named : scheme = "http".toList ∨ scheme = "https".toList := by
    rwa [bare.text, isWeb_spelled bare.known] at web
  have other : ¬ IsSocket origin.toList := by
    rw [bare.text, isSocket_spelled bare.known]
    rcases named with rfl | rfl <;> decide
  have joined : ∀ mark text : List Char, spelled mark text ++ added origin path =
      spelled mark (text ++ added origin path) := fun mark text => by simp [spelled]
  rw [endpoint_toList, if_neg relative, if_neg other, bare.cut, converted_spelled bare.known,
    joined]
  refine ⟨_, rfl, ?_⟩
  rcases named with rfl | rfl <;> decide

/-- A web origin gives an endpoint with its path. -/
theorem Bare.web_iff (absolute : ∃ more, path.toList = '/' :: more)
    (relative : ¬ IsSocket path.toList) (web : IsWeb origin.toList) :
    Normal origin path (wsEndpointForOrigin origin path) ↔ Regular origin path := by
  have named : scheme = "http".toList ∨ scheme = "https".toList := by
    rwa [bare.text, isWeb_spelled bare.known] at web
  have other : ¬ IsSocket origin.toList := by
    rw [bare.text, isSocket_spelled bare.known]
    rcases named with rfl | rfl <;> decide
  obtain ⟨mark, url, marked, socket, secure⟩ := bare.endpoint relative web
  have colonless : ':' ∉ mark := by
    rcases socket with rfl | rfl <;> decide
  have short : parts (stripped origin) = some (host, rest) := by
    rw [bare.cut, spelled, parts_at bare.colonless bare.free bare.restEnded]
  have endedShort : parts (spelled mark (host ++ rest)) = some (host, rest) :=
    parts_at colonless bare.free bare.restEnded
  have grownEnded : Text.Ended (rest ++ path.toList) := by
    cases rest with
    | nil =>
        obtain ⟨more, begins⟩ := absolute
        rw [begins]
        rintro _ ⟨⟩
        rfl
    | cons head rest => exact bare.restEnded
  have endedLong : parts (spelled mark (host ++ rest ++ path.toList)) =
      some (host, rest ++ path.toList) := by
    rw [spelled, List.append_assoc, parts_at colonless bare.free grownEnded]
  have twice : ∃ more, path.toList ++ path.toList = '/' :: more := by
    obtain ⟨more, begins⟩ := absolute
    exact ⟨more ++ path.toList, by rw [begins, List.cons_append]⟩
  have whole : trail ≠ [] → stripped origin = origin.toList := by
    intro some
    rw [bare.cut, bare.text, bare.tail some, List.append_nil]
  have carried := @place_carried scheme host rest slashes after trail path.toList bare.colonless
    bare.free bare.ended bare.only bare.white bare.tail bare.same
  have grown := @place_added scheme host rest slashes after trail path.toList bare.colonless
    bare.free bare.ended bare.only bare.white bare.same
  constructor
  · intro normal
    have placed := normal.place
    have once := normal.once
    rw [bare.trimmed, url] at placed
    rw [url, suffix_spelled marked twice] at once
    have straight : ¬ Turned (host ++ rest) (converted (host ++ rest)) :=
      not_turned_of_place bare.colonless bare.white
        (by rw [bare.same, List.append_assoc]) colonless placed
    rcases converted_cases (host ++ rest) with ⟨plain, secured, same⟩ | ⟨-, turned⟩
    swap
    · exact absurd turned straight
    rw [same] at placed once
    have single : ∀ name later, parts (stripped origin) = some (name, later) →
        ¬ "http://".toList <:+: name ++ later ∧ ¬ "https://".toList <:+: name ++ later := by
      intro name later read
      obtain ⟨rfl, rfl⟩ := Prod.mk.inj (Option.some.inj (short.symm.trans read))
      exact ⟨plain, secured⟩
    refine ⟨.inr web, fun _ => single, bare.tight_iff.mpr ?_, fun own => absurd own other, ?_⟩
    · by_cases ends : path.toList <:+ stripped origin
      · rw [added, if_pos ends, List.append_nil, endedShort, carried] at placed
        by_cases empty : trail = []
        · exact .inl empty
        · rw [whole empty] at ends
          exact placed.2.imp_right fun kind => ⟨ends, kind⟩
      · rw [added, if_neg ends, endedLong, grown] at placed
        exact .inl placed
    · intro _ ends
      rw [added, if_pos ends, List.append_nil] at placed once
      rw [endedShort, carried] at placed
      constructor
      · intro name later read
        obtain ⟨-, rfl⟩ := Prod.mk.inj (Option.some.inj (short.symm.trans read))
        exact placed.1
      · rw [bare.cut, suffix_spelled bare.known twice]
        exact once
  · intro regular
    obtain ⟨plain, secured⟩ := regular.single web host rest short
    have straight : converted (host ++ rest) = host ++ rest := by
      rcases converted_cases (host ++ rest) with ⟨-, -, same⟩ | ⟨inside, -⟩
      · exact same
      · exact absurd inside (not_or.mpr ⟨plain, secured⟩)
    have dialled : IsSocket (wsEndpointForOrigin origin path).toList := by
      rw [url, isSocket_spelled marked]
      exact socket
    have again : wsEndpointForOrigin (wsEndpointForOrigin origin path) path =
        wsEndpointForOrigin origin path := by
      rw [← String.toList_inj, endpoint_toList, if_neg relative, if_pos dialled]
    have tight := bare.tight_iff.mp regular.tight
    rw [straight] at url
    refine ⟨dialled, ?_, ?_, ?_, again⟩
    · rw [url, secure_spelled marked, secure]
      exact bare.secure_iff.symm
    · rw [bare.trimmed, url]
      by_cases ends : path.toList <:+ stripped origin
      · rw [added, if_pos ends, List.append_nil, endedShort, carried]
        exact ⟨(regular.ended web ends).place host rest short, tight.imp_right And.right⟩
      · rw [added, if_neg ends, endedLong, grown]
        by_contra some
        rcases tight with empty | ⟨inside, -⟩
        · exact some empty
        · rw [← whole some] at inside
          exact ends inside
    · rw [url, suffix_spelled marked twice]
      by_cases ends : path.toList <:+ stripped origin
      · have once := (regular.ended web ends).once
        rw [bare.cut, suffix_spelled bare.known twice] at once
        rwa [added, if_pos ends, List.append_nil]
      · rw [added, if_neg ends]
        rintro ⟨front, same⟩
        apply ends
        rw [bare.cut, suffix_spelled bare.known absolute]
        have longer : (front ++ path.toList) ++ path.toList =
            ('/' :: '/' :: (host ++ rest)) ++ path.toList := by simpa using same
        exact ⟨front, List.append_cancel_right longer⟩

end Bare

/-- An accepted origin and a path of the socket make one endpoint, with the scheme, the host, the
port and the base path of the origin, just where the origin is regular. -/
theorem normal_iff {origin path : String} (ok : validateBackendUrl origin = .ok ())
    (absolute : ∃ more, path.toList = '/' :: more) :
    Normal origin path (wsEndpointForOrigin origin path) ↔ Regular origin path := by
  have relative : ¬ IsSocket path.toList := by
    obtain ⟨more, begins⟩ := absolute
    rw [begins]
    rintro (inside | inside) <;> exact absurd (List.cons_prefix_cons.mp inside).1 (by decide)
  obtain ⟨lead, scheme, after, trail, checked⟩ := checked_of_ok ok
  by_cases known : IsSocket origin.toList ∨ IsWeb origin.toList
  · obtain ⟨host, rest, slashes, bare⟩ := checked.bare known
    rcases known with socket | web
    · exact bare.socket_iff relative socket
    · exact bare.web_iff absolute relative web
  · exact iff_of_false (fun normal => known ((checked.isSocket_endpoint relative).mp normal.socket))
      fun regular => known regular.scheme

/-- A base path and the slash after it give the socket below the base path. -/
theorem based_origin_normal : Normal "https://synthhires.com/sub/" "/api/devices/ws"
    (wsEndpointForOrigin "https://synthhires.com/sub/" "/api/devices/ws") := by
  refine (normal_iff (by decide) ⟨_, rfl⟩).mpr ?_
  have web : IsWeb "https://synthhires.com/sub/".toList := .inr (by decide)
  have other : ¬ IsSocket "https://synthhires.com/sub/".toList := by decide
  have read : parts (stripped "https://synthhires.com/sub/") =
      some ("synthhires.com".toList, "/sub".toList) := by decide
  refine ⟨.inr web, fun _ host rest own => ?_, .inl (by decide),
    fun socket => absurd socket other, fun _ ends => absurd ends (by decide)⟩
  obtain ⟨rfl, rfl⟩ := Prod.mk.inj (Option.some.inj (read.symm.trans own))
  decide

/-- A scheme in capital letters is accepted and not exchanged, and an origin with a socket's scheme
gets no path. -/
theorem capital_scheme_not_normal :
    (validateBackendUrl "HTTPS://synthhires.com" = .ok () ∧
      ¬ Normal "HTTPS://synthhires.com" "/api/devices/ws"
        (wsEndpointForOrigin "HTTPS://synthhires.com" "/api/devices/ws")) ∧
    (validateBackendUrl "wss://synthhires.com" = .ok () ∧
      ¬ Normal "wss://synthhires.com" "/api/devices/ws"
        (wsEndpointForOrigin "wss://synthhires.com" "/api/devices/ws")) := by
  refine ⟨⟨by decide, fun normal => ?_⟩, by decide, fun normal => ?_⟩
  · exact absurd normal.socket (by decide)
  · obtain ⟨host, base, given, -, -, read⟩ := normal.place
    have own : parts (wsEndpointForOrigin "wss://synthhires.com" "/api/devices/ws").toList =
        some ("synthhires.com".toList, []) := by decide
    obtain ⟨-, same⟩ := Prod.mk.inj (Option.some.inj (own.symm.trans read))
    cases base <;> cases same

end Daemon.ClientStart
