import SynthHiresBridge.Data.WebUrl
import SynthHiresBridge.Proof.Endpoints

namespace Daemon.BackendUrl

open UrlHost WebUrl

def secureSchemes : List (List Char) := ["https".toList, "wss".toList]
def plainSchemes : List (List Char) := ["http".toList, "ws".toList]
def loopbackNames : List (List Char) := ["localhost".toList, "127.0.0.1".toList]

/-- The hosts of this machine. -/
def IsLoopback (host : UrlHost.Host) : Prop :=
  host = .domain "localhost" ∨ host = .ipv4 0x7F000001#32 ∨ host = .ipv6 1#128

instance (host : UrlHost.Host) : Decidable (IsLoopback host) := inferInstanceAs (Decidable (_ ∨ _))

/-- A text has neither controls nor spaces. -/
def Clean (text : List Char) : Prop :=
  ∀ char ∈ text, Text.isControl char = false ∧ char ≠ ' '

/-- A text is a scheme, `://` and a rest. -/
def spelled (scheme rest : List Char) : List Char :=
  scheme ++ ':' :: '/' :: '/' :: rest

/-- An origin that may be used: its authority is followed by a path at most, its user is left out,
and without encryption its host is this machine. -/
structure Allowed (names : Names) (text : List Char) : Prop where
  clean : Clean text
  shape : ∃ scheme authority tail origin, text = spelled scheme (authority ++ tail) ∧
    authority ≠ [] ∧ (∀ char ∈ authority, closes char = false) ∧
    (tail = [] ∨ ∃ path, tail = '/' :: path) ∧
    parse names text = some origin ∧ origin.userinfo = none ∧
    (Text.lower scheme ∈ secureSchemes ∨
      Text.lower scheme ∈ plainSchemes ∧ IsLoopback origin.host)

/-- The text up to the first slash. -/
def upToSlash (rest : List Char) : List Char := rest.takeWhile (· ≠ '/')

def upToColon (authority : List Char) : List Char := authority.takeWhile (· ≠ ':')

/-- What the checks of the code leave: a scheme, and a text without a user up to the first slash. -/
structure Checks (text scheme rest : List Char) : Prop where
  spelling : text = spelled scheme rest
  scheme : Text.lower scheme ∈ schemes
  filled : upToSlash rest ≠ []
  userless : '@' ∉ upToSlash rest
  clean : Clean text

/-- The text up to the first colon names this machine. -/
def Named (rest : List Char) : Prop :=
  Text.lower (upToColon (upToSlash rest)) ∈ loopbackNames

instance (rest : List Char) : Decidable (Named rest) := inferInstanceAs (Decidable (_ ∈ _))

section Validate

theorem lower_takeWhile {mark : Char} (plain : mark.isAlpha = false) (text : List Char) :
    (Text.lower text).takeWhile (· ≠ mark) = Text.lower (text.takeWhile (· ≠ mark)) := by
  rw [Text.lower, List.takeWhile_map, Text.lower]
  congr 2
  funext char
  rw [Function.comp, decide_eq_decide]
  constructor
  · rintro other rfl
    apply other
    rcases Text.toLower_cases char with stays | ⟨letter, -⟩
    · exact stays
    · rw [plain] at letter
      cases letter
  · exact fun other same => other (Text.toLower_eq plain same)

theorem mem_lower {mark : Char} (plain : mark.isAlpha = false) {text : List Char} :
    mark ∈ Text.lower text ↔ mark ∈ text := by
  constructor
  · intro member
    obtain ⟨char, held, same⟩ := List.mem_map.mp member
    rwa [Text.toLower_eq plain same] at held
  · intro member
    refine List.mem_map.mpr ⟨mark, member, ?_⟩
    rcases Text.toLower_cases mark with stays | ⟨letter, -⟩
    · exact stays
    · rw [plain] at letter
      cases letter

theorem lower_append (front rest : List Char) :
    Text.lower (front ++ rest) = Text.lower front ++ Text.lower rest :=
  List.map_append

theorem lower_spelled (scheme rest : List Char) :
    Text.lower (spelled scheme rest) = spelled (Text.lower scheme) (Text.lower rest) := by
  have marks : Text.lower [':', '/', '/'] = [':', '/', '/'] := by decide
  have parts : spelled scheme rest = scheme ++ ([':', '/', '/'] ++ rest) := rfl
  rw [parts, lower_append, lower_append, marks]
  rfl

theorem colonless_of_known {scheme : List Char} (known : Text.lower scheme ∈ schemes) :
    ':' ∉ scheme := by
  intro member
  exact absurd (isSchemeChar_of_known known ':' member) (by decide)

/-- A spelled text is cut at its scheme. -/
theorem splitOnce_spelled {scheme : List Char} (known : Text.lower scheme ∈ schemes)
    (rest : List Char) :
    Text.splitOnce "://".toList (Text.lower (spelled scheme rest)) =
      some (Text.lower scheme, Text.lower rest) := by
  rw [lower_spelled]
  apply Text.splitOnce_scheme
  rw [mem_lower (by decide)]
  exact colonless_of_known known

theorem spelled_inj {scheme other rest more : List Char} (known : Text.lower scheme ∈ schemes)
    (also : Text.lower other ∈ schemes) (same : spelled scheme rest = spelled other more) :
    scheme = other ∧ rest = more := by
  have first := Text.splitOnce_scheme (colonless_of_known known) rest
  have second := Text.splitOnce_scheme (colonless_of_known also) more
  rw [spelled, spelled] at same
  rw [same, second] at first
  obtain ⟨left, right⟩ := Prod.mk.inj (Option.some.inj first)
  exact ⟨left.symm, right.symm⟩

/-- A scheme of a lowered text is the lowered scheme of the text. -/
theorem spelled_of_cut {text scheme rest : List Char}
    (cut : Text.splitOnce "://".toList (Text.lower text) = some (scheme, rest)) :
    ∃ before after, text = spelled before after ∧ Text.lower before = scheme ∧
      Text.lower after = rest := by
  have whole := Text.splitOnce_some cut
  rw [Text.lower, List.append_assoc] at whole
  obtain ⟨before, later, rfl, schemeSame, laterSame⟩ := List.map_eq_append_iff.mp whole
  obtain ⟨separator, after, rfl, separatorSame, afterSame⟩ := List.map_eq_append_iff.mp laterSame
  have mark := @Text.lower_eq _ "://".toList (Text.forall_of_all (by decide)) separatorSame
  have marks : "://".toList = [':', '/', '/'] := by decide
  rw [mark, marks]
  exact ⟨before, after, rfl, schemeSame, afterSame⟩

/-- A host up to the first colon has no colon. -/
theorem loopback_iff {host : List Char} (colonless : ':' ∉ host) :
    (["localhost", "127.0.0.1", "::1", "[::1]"].any fun known => host = known.toList) = true ↔
      host ∈ loopbackNames := by
  simp only [List.any_cons, List.any_nil, Bool.or_false, Bool.or_eq_true, decide_eq_true_eq,
    loopbackNames, List.mem_cons, List.not_mem_nil, or_false]
  constructor
  · rintro (same | same | same | same)
    · exact .inl same
    · exact .inr same
    · rw [same] at colonless
      exact absurd (by decide) colonless
    · rw [same] at colonless
      exact absurd (by decide) colonless
  · rintro (same | same)
    · exact .inl same
    · exact .inr (.inl same)

theorem colonless_upToColon (authority : List Char) : ':' ∉ upToColon authority := by
  intro member
  have other := List.mem_takeWhile_imp member
  simp at other

/-- A backend passes the checks just where its text is one that they leave, and without encryption
its host names this machine. -/
theorem validate_ok_iff (backend : String) : validateBackendUrl backend = .ok () ↔
    ∃ scheme rest, Checks (Text.trim backend).toList scheme rest ∧
      (Text.lower scheme ∈ plainSchemes → Named rest) := by
  rw [validateBackendUrl]
  dsimp only
  generalize Text.trim backend = b
  by_cases empty : b = ""
  · rw [if_pos empty]
    refine iff_of_false nofun ?_
    rintro ⟨scheme, rest, checks, -⟩
    have text := checks.spelling
    rw [empty] at text
    cases scheme <;> cases text
  rw [if_neg empty]
  cases cut : Text.splitOnce "://".toList (Text.lower b.toList) with
  | none =>
      refine iff_of_false nofun ?_
      rintro ⟨scheme, rest, checks, -⟩
      rw [checks.spelling, splitOnce_spelled checks.scheme] at cut
      cases cut
  | some parts =>
      obtain ⟨lowScheme, lowRest⟩ := parts
      obtain ⟨scheme, rest, text, rfl, rfl⟩ := spelled_of_cut cut
      have listed : (["https", "wss", "http", "ws"].all fun known =>
          decide (Text.lower scheme ≠ known.toList)) = true ↔ Text.lower scheme ∉ schemes := by
        simp [schemes]
      have plainly : (Text.lower scheme = "http".toList ∨ Text.lower scheme = "ws".toList) ↔
          Text.lower scheme ∈ plainSchemes := by
        simp [plainSchemes]
      have slash : (Text.lower rest).takeWhile (· ≠ '/') = Text.lower (upToSlash rest) :=
        lower_takeWhile (by decide) rest
      have colon : (Text.lower (upToSlash rest)).takeWhile (· ≠ ':') =
          Text.lower (upToColon (upToSlash rest)) := lower_takeWhile (by decide) _
      have nothing : Text.lower (upToSlash rest) = [] ↔ upToSlash rest = [] := List.map_eq_nil_iff
      have user : (Text.lower (upToSlash rest)).contains '@' = true ↔ '@' ∈ upToSlash rest := by
        rw [List.contains_iff_mem, mem_lower (by decide)]
      have colonless : ':' ∉ Text.lower (upToColon (upToSlash rest)) := by
        rw [mem_lower (by decide)]
        exact colonless_upToColon _
      have host : (["localhost", "127.0.0.1", "::1", "[::1]"].any fun known =>
          decide (Text.lower (upToColon (upToSlash rest)) = known.toList)) = true ↔ Named rest :=
        loopback_iff colonless
      have dirty : (b.toList.any fun char => Text.isControl char || decide (char = ' ')) = true ↔
          ¬ Clean b.toList := by
        rw [Clean, List.any_eq_true]
        push Not
        refine exists_congr fun char => and_congr_right fun _ => ?_
        rw [Bool.or_eq_true, decide_eq_true_iff]
        cases Text.isControl char <;> simp
      simp only [listed, plainly, slash, colon, nothing, user, host]
      by_cases known : Text.lower scheme ∈ schemes
      · have own : (∃ other more, Checks b.toList other more ∧
            (Text.lower other ∈ plainSchemes → Named more)) ↔
              Checks b.toList scheme rest ∧ (Text.lower scheme ∈ plainSchemes → Named rest) := by
          constructor
          · rintro ⟨other, more, checks, named⟩
            obtain ⟨rfl, rfl⟩ := spelled_inj checks.scheme known (checks.spelling.symm.trans text)
            exact ⟨checks, named⟩
          · exact fun both => ⟨scheme, rest, both⟩
        rw [own, if_neg (not_not.mpr known)]
        by_cases unfilled : upToSlash rest = []
        · rw [if_pos unfilled]
          exact iff_of_false nofun fun both => both.1.filled unfilled
        rw [if_neg unfilled]
        by_cases userful : '@' ∈ upToSlash rest
        · rw [if_pos userful]
          exact iff_of_false nofun fun both => both.1.userless userful
        rw [if_neg userful]
        by_cases remote : Text.lower scheme ∈ plainSchemes ∧ ¬ Named rest
        · rw [if_pos remote]
          exact iff_of_false nofun fun both => remote.2 (both.2 remote.1)
        rw [if_neg remote]
        by_cases solid : Clean b.toList
        · rw [if_neg fun some => dirty.mp some solid]
          exact iff_of_true rfl ⟨⟨text, known, unfilled, userful, solid⟩,
            fun plain => not_not.mp fun other => remote ⟨plain, other⟩⟩
        · rw [if_pos (dirty.mpr solid)]
          exact iff_of_false nofun fun both => solid both.1.clean
      · rw [if_pos known]
        refine iff_of_false nofun ?_
        rintro ⟨other, more, checks, -⟩
        have again := splitOnce_spelled checks.scheme more
        rw [← checks.spelling, cut] at again
        rw [(Prod.mk.inj (Option.some.inj again)).1] at known
        exact known checks.scheme

end Validate

/-- The text after the first colon is the port of a named machine. -/
def portText (rest : List Char) : Option (List Char) :=
  ((upToSlash rest).dropWhile (· ≠ ':')).tail?

/-- No mark that ends an authority stands before the first slash. -/
def Plain (rest : List Char) : Prop :=
  ∀ char ∈ upToSlash rest, closes char = false

instance (rest : List Char) : Decidable (Plain rest) :=
  List.decidableBAll (fun char => closes char = false) (upToSlash rest)

section Allowed

variable {names : Names}

theorem isEdge_of_clean {text : List Char} (clean : Clean text) :
    ∀ char ∈ text, isEdge char = false := by
  intro char member
  obtain ⟨control, space⟩ := clean char member
  have low : ¬ char.toNat < 0x20 := by
    intro low
    rw [Text.isControl, decide_eq_true low] at control
    cases control
  have other : char.toNat ≠ 0x20 := fun same => space (Char.toNat_inj.mp same)
  rw [isEdge, decide_eq_false_iff_not]
  omega

theorem upToSlash_append {authority tail : List Char}
    (plain : ∀ char ∈ authority, closes char = false)
    (stops : tail = [] ∨ ∃ path, tail = '/' :: path) : upToSlash (authority ++ tail) = authority := by
  have front : ∀ char ∈ authority, decide (char ≠ '/') = true := by
    intro char member
    rw [decide_eq_true_iff]
    rintro rfl
    exact absurd (plain '/' member) (by decide)
  rw [upToSlash, List.takeWhile_append_of_pos front]
  rcases stops with rfl | ⟨path, rfl⟩
  · rw [List.takeWhile_nil, List.append_nil]
  · rw [List.takeWhile_cons_of_neg (by decide), List.append_nil]

theorem upToSlash_stops (rest : List Char) :
    ∃ tail, rest = upToSlash rest ++ tail ∧ (tail = [] ∨ ∃ path, tail = '/' :: path) := by
  refine ⟨rest.dropWhile (· ≠ '/'), List.takeWhile_append_dropWhile.symm, ?_⟩
  cases later : rest.dropWhile (· ≠ '/') with
  | nil => exact .inl rfl
  | cons first path =>
      have stops := List.head?_dropWhile_not (· ≠ '/') rest
      rw [later] at stops
      obtain rfl : first = '/' := by simpa using stops
      exact .inr ⟨path, rfl⟩

/-- The parser reads what stands before the first slash. -/
theorem parse_spelled {scheme rest : List Char} (known : Text.lower scheme ∈ schemes)
    (clean : Clean (spelled scheme rest)) (filled : upToSlash rest ≠ []) (plain : Plain rest) :
    parse names (spelled scheme rest) = readAuthority names (upToSlash rest) := by
  obtain ⟨tail, cut, stops⟩ := upToSlash_stops rest
  have begins : rest.dropWhile isSlash = rest := by
    rw [cut]
    cases text : upToSlash rest with
    | nil => exact absurd text filled
    | cons first more =>
        have other : closes first = false := plain first (by rw [text]; exact List.mem_cons_self)
        rw [List.cons_append, List.dropWhile_cons_of_neg]
        intro slash
        rw [isSlash, Bool.or_eq_true, decide_eq_true_iff, decide_eq_true_iff] at slash
        rcases slash with rfl | rfl
        · exact absurd other (by decide)
        · exact absurd other (by decide)
  have ends : rest.takeWhile (fun char => !closes char) = upToSlash rest := by
    have front : ∀ char ∈ upToSlash rest, (!closes char) = true := fun char member => by
      simp [plain char member]
    conv_lhs => rw [cut]
    rw [List.takeWhile_append_of_pos front]
    rcases stops with rfl | ⟨path, rfl⟩
    · rw [List.takeWhile_nil, List.append_nil]
    · rw [List.takeWhile_cons_of_neg (by decide), List.append_nil]
  rw [spelled, parse_eq known (isEdge_of_clean clean), begins, ends]

theorem userinfo_readAuthority {authority : List Char} {origin : Origin}
    (read : readAuthority names authority = some origin) :
    origin.userinfo = none ↔ '@' ∉ authority := by
  rw [readAuthority] at read
  split at read
  · obtain rfl := Option.some.inj read
    rw [← List.contains_iff_mem]
    cases authority.contains '@' <;> simp
  · cases read

theorem checks_of_allowed {text : List Char} (allowed : Allowed names text) :
    ∃ scheme rest, Checks text scheme rest ∧ Plain rest ∧ ∃ origin,
      readAuthority names (upToSlash rest) = some origin ∧
      (Text.lower scheme ∈ secureSchemes ∨
        Text.lower scheme ∈ plainSchemes ∧ IsLoopback origin.host) := by
  obtain ⟨scheme, authority, tail, origin, spelling, filled, plain, stops, read, userless, kind⟩ :=
    allowed.shape
  have front := upToSlash_append plain stops
  have known : Text.lower scheme ∈ schemes := by
    rcases kind with secure | ⟨plainly, -⟩
    · exact List.mem_append_left plainSchemes secure
    · exact List.mem_append_right secureSchemes plainly
  have inside : Plain (authority ++ tail) := by
    intro char member
    rw [front] at member
    exact plain char member
  have own : upToSlash (authority ++ tail) ≠ [] := by
    rw [front]
    exact filled
  have clean := allowed.clean
  rw [spelling] at read clean
  rw [parse_spelled known clean own inside] at read
  refine ⟨scheme, authority ++ tail, ⟨spelling, known, own, ?_, allowed.clean⟩, inside, origin,
    read, kind⟩
  exact (userinfo_readAuthority read).mp userless

/-- A text that passed is allowed just where the parser ends its authority at the first slash and
reads a host from it, and without encryption that is the host of this machine. -/
theorem allowed_iff {text scheme rest : List Char} (checks : Checks text scheme rest) :
    Allowed names text ↔ Plain rest ∧ ∃ origin,
      readAuthority names (upToSlash rest) = some origin ∧
      (Text.lower scheme ∈ secureSchemes ∨
        Text.lower scheme ∈ plainSchemes ∧ IsLoopback origin.host) := by
  constructor
  · intro allowed
    obtain ⟨other, more, also, read⟩ := checks_of_allowed allowed
    obtain ⟨rfl, rfl⟩ :=
      spelled_inj checks.scheme also.scheme (checks.spelling.symm.trans also.spelling)
    exact read
  · rintro ⟨plain, origin, read, kind⟩
    obtain ⟨tail, cut, stops⟩ := upToSlash_stops rest
    have spelling := checks.spelling
    have clean := checks.clean
    rw [spelling] at clean
    have parsed : parse names (spelled scheme rest) = readAuthority names (upToSlash rest) :=
      parse_spelled checks.scheme clean checks.filled plain
    rw [read, ← spelling] at parsed
    rw [cut] at spelling
    exact ⟨checks.clean, scheme, upToSlash rest, tail, origin, spelling, checks.filled, plain, stops,
      parsed, (userinfo_readAuthority read).mpr checks.userless, kind⟩

theorem alphanum_of_toLower {char : Char} (letter : char.toLower.isAlphanum ∨ char.toLower = '.') :
    char.isAlphanum ∨ char = '.' := by
  rcases Text.toLower_cases char with stays | ⟨own, -⟩
  · rwa [stays] at letter
  · left
    rw [Char.isAlphanum, own]
    rfl

theorem named_plain {name : List Char} (named : Text.lower name ∈ loopbackNames) :
    ∀ char ∈ name, char.isAlphanum ∨ char = '.' := by
  intro char member
  have inside : char.toLower ∈ Text.lower name := List.mem_map_of_mem member
  have letters : ∀ known ∈ loopbackNames,
      (known.all fun char => decide (char.isAlphanum ∨ char = '.')) = true := by decide
  exact alphanum_of_toLower (Text.forall_of_all (letters _ named) _ inside)

theorem parseHost_named {name : List Char} (named : Text.lower name ∈ loopbackNames) :
    ∃ host, IsLoopback host ∧ parseHost names.toAscii (String.ofList name) = some host := by
  have filled : name ≠ [] := by
    rintro rfl
    exact absurd named (by decide)
  rw [parseHost_plain filled (named_plain named)]
  have each : ∀ known ∈ loopbackNames, ∃ host, IsLoopback host ∧
      parseHost .some (String.ofList known) = some host := by
    intro known listed
    rw [loopbackNames, List.mem_cons, List.mem_singleton] at listed
    rcases listed with rfl | rfl
    · exact ⟨.domain "localhost", by decide, by decide⟩
    · exact ⟨.ipv4 0x7F000001#32, by decide, by decide⟩
  exact each _ named

/-- This machine by its name is read if the port can be read. -/
theorem readAuthority_named {rest : List Char} (named : Named rest)
    (userless : '@' ∉ upToSlash rest) : ∃ host, IsLoopback host ∧
      readAuthority names (upToSlash rest) =
        (parsePort (portText rest)).map fun port => ⟨none, host, port⟩ := by
  obtain ⟨host, own, read⟩ : ∃ host, IsLoopback host ∧
      parseHost names.toAscii (String.ofList (upToColon (upToSlash rest))) = some host :=
    parseHost_named named
  have stops : ((upToSlash rest).dropWhile (· ≠ ':') = [] ∨
      ∃ port, (upToSlash rest).dropWhile (· ≠ ':') = ':' :: port) := by
    cases later : (upToSlash rest).dropWhile (· ≠ ':') with
    | nil => exact .inl rfl
    | cons first port =>
        have stops := List.head?_dropWhile_not (· ≠ ':') (upToSlash rest)
        rw [later] at stops
        obtain rfl : first = ':' := by simpa using stops
        exact .inr ⟨port, rfl⟩
  have cut : cutHost false (upToSlash rest) = (upToColon (upToSlash rest), portText rest) := by
    have parts := cutHost_plain (named_plain named) stops
    rwa [upToColon, List.takeWhile_append_dropWhile] at parts
  have whole : (upToSlash rest).rtakeWhile (· ≠ '@') = upToSlash rest := by
    rw [List.rtakeWhile_eq_self_iff]
    intro char member
    rw [decide_eq_true_iff]
    rintro rfl
    exact userless member
  refine ⟨host, own, ?_⟩
  rw [readAuthority, whole, cut, read]
  cases parsePort (portText rest) <;> simp [userless]

/-- The checks and the parser read one origin alike. Of the origins with encryption, those whose
authority ends before the first slash or cannot be read pass without leave, and so do those of this
machine whose port cannot be read. This machine in any other spelling is turned away. -/
structure Agrees (names : Names) (scheme rest : List Char) : Prop where
  secure : Text.lower scheme ∈ secureSchemes →
    Plain rest ∧ (readAuthority names (upToSlash rest)).isSome
  port : Text.lower scheme ∈ plainSchemes → Named rest → (parsePort (portText rest)).isSome
  otherwise : Text.lower scheme ∈ plainSchemes → ¬ Named rest → Plain rest → ∀ origin,
    readAuthority names (upToSlash rest) = some origin → ¬ IsLoopback origin.host

theorem secure_or_plain {scheme : List Char} (known : scheme ∈ schemes) :
    scheme ∈ secureSchemes ∧ scheme ∉ plainSchemes ∨
      scheme ∈ plainSchemes ∧ scheme ∉ secureSchemes := by
  have each : ∀ known ∈ schemes, known ∈ secureSchemes ∧ known ∉ plainSchemes ∨
      known ∈ plainSchemes ∧ known ∉ secureSchemes := by decide
  exact each scheme known

theorem closes_of_digit {char : Char} (number : (digit 10 char).isSome) : closes char = false := by
  rw [← Bool.not_eq_true]
  intro ends
  rw [closes, Text.ends, Bool.or_eq_true, Bool.or_eq_true, Bool.or_eq_true, decide_eq_true_iff,
    decide_eq_true_iff, decide_eq_true_iff, decide_eq_true_iff] at ends
  rcases ends with ((rfl | rfl) | rfl) | rfl <;> exact absurd number (by decide)

theorem closes_of_plain {char : Char} (plain : char.isAlphanum ∨ char = '.') :
    closes char = false := by
  rw [← Bool.not_eq_true]
  intro ends
  rw [closes, Text.ends, Bool.or_eq_true, Bool.or_eq_true, Bool.or_eq_true, decide_eq_true_iff,
    decide_eq_true_iff, decide_eq_true_iff, decide_eq_true_iff] at ends
  rcases ends with ((rfl | rfl) | rfl) | rfl <;> exact absurd plain (by decide)

theorem plain_of_port {rest : List Char} (named : Named rest)
    (read : (parsePort (portText rest)).isSome) : Plain rest := by
  intro char member
  have cut : upToSlash rest = upToColon (upToSlash rest) ++
      (upToSlash rest).dropWhile (· ≠ ':') := List.takeWhile_append_dropWhile.symm
  rw [cut] at member
  rcases List.mem_append.mp member with name | after
  · exact closes_of_plain (named_plain named char name)
  · rw [portText] at read
    cases later : (upToSlash rest).dropWhile (· ≠ ':') with
    | nil =>
        rw [later] at after
        cases after
    | cons first port =>
        have stops := List.head?_dropWhile_not (· ≠ ':') (upToSlash rest)
        rw [later] at stops after read
        obtain rfl : first = ':' := by simpa using stops
        rcases List.mem_cons.mp after with rfl | digit
        · decide
        · exact closes_of_digit (digits_of_port read char digit)

/-- The code admits a checked text that is allowed, and no other, just where both agree on it. -/
theorem admits_iff {text scheme rest : List Char} (checks : Checks text scheme rest) :
    ((Text.lower scheme ∈ plainSchemes → Named rest) ↔ Allowed names text) ↔
      Agrees names scheme rest := by
  rw [allowed_iff checks]
  rcases secure_or_plain checks.scheme with ⟨secure, other⟩ | ⟨plainly, other⟩
  · constructor
    · intro same
      obtain ⟨plain, origin, read, -⟩ := same.mp fun inside => absurd inside other
      exact ⟨fun _ => ⟨plain, Option.isSome_of_eq_some read⟩, fun inside => absurd inside other,
        fun inside => absurd inside other⟩
    · intro agrees
      obtain ⟨plain, some⟩ := agrees.secure secure
      obtain ⟨origin, read⟩ := Option.isSome_iff_exists.mp some
      exact iff_of_true (fun inside => absurd inside other) ⟨plain, origin, read, .inl secure⟩
  · by_cases named : Named rest
    · obtain ⟨host, own, read⟩ : ∃ host, IsLoopback host ∧
          readAuthority names (upToSlash rest) =
            (parsePort (portText rest)).map fun port => ⟨none, host, port⟩ :=
        readAuthority_named named checks.userless
      constructor
      · intro same
        obtain ⟨-, origin, found, -⟩ := same.mp fun _ => named
        refine ⟨fun inside => absurd inside other, fun _ _ => ?_, fun _ away => absurd named away⟩
        rw [read] at found
        obtain ⟨port, some, -⟩ := Option.map_eq_some_iff.mp found
        exact Option.isSome_of_eq_some some
      · intro agrees
        have some := agrees.port plainly named
        obtain ⟨port, number⟩ := Option.isSome_iff_exists.mp some
        rw [number, Option.map_some] at read
        exact iff_of_true (fun _ => named)
          ⟨plain_of_port named some, _, read, .inr ⟨plainly, own⟩⟩
    · constructor
      · intro same
        refine ⟨fun inside => absurd inside other, fun _ own => absurd own named, ?_⟩
        intro _ _ plain origin read own
        exact named (same.mpr ⟨plain, origin, read, .inr ⟨plainly, own⟩⟩ plainly)
      · intro agrees
        refine iff_of_false (fun all => named (all plainly)) ?_
        rintro ⟨plain, origin, read, secure | ⟨-, own⟩⟩
        · exact other secure
        · exact agrees.otherwise plainly named plain origin read own

/-- A backend is accepted exactly where it is allowed if and only if its text does not pass the
checks at all or is one that they and the parser agree on. -/
theorem accepts_iff (backend : String) :
    (validateBackendUrl backend = .ok () ↔ Allowed names (Text.trim backend).toList) ↔
      ∀ scheme rest, Checks (Text.trim backend).toList scheme rest → Agrees names scheme rest := by
  rw [validate_ok_iff]
  generalize (Text.trim backend).toList = text
  constructor
  · intro same scheme rest checks
    rw [← admits_iff checks, ← same]
    constructor
    · exact fun named => ⟨scheme, rest, checks, named⟩
    · rintro ⟨other, more, also, named⟩
      obtain ⟨rfl, rfl⟩ :=
        spelled_inj checks.scheme also.scheme (checks.spelling.symm.trans also.spelling)
      exact named
  · intro agrees
    constructor
    · rintro ⟨scheme, rest, checks, named⟩
      exact ((admits_iff checks).mpr (agrees scheme rest checks)).mp named
    · intro allowed
      obtain ⟨scheme, rest, checks, -⟩ := checks_of_allowed allowed
      exact ⟨scheme, rest, checks, ((admits_iff checks).mpr (agrees scheme rest checks)).mpr allowed⟩

end Allowed

end Daemon.BackendUrl
