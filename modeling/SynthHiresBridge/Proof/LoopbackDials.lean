import SynthHiresBridge.Proof.BackendOrigins

namespace Daemon.BackendUrl

open UrlHost WebUrl

/-- What is dialled for a backend: a request below it, the endpoint of its socket, and the backend
as it was given. -/
inductive Dialled (backend : String) : List Char → Prop
  | request (path : List Char) : Dialled backend (ClientStart.stripped backend ++ '/' :: path)
  | socket (path : List Char) :
      Dialled backend (wsEndpointForOrigin backend (String.ofList ('/' :: path))).toList
  | given : Dialled backend backend.toList

/-- After the name of a host, white space at most stands before its port or its path, and no user
stands before the path. -/
structure Tame (rest : List Char) : Prop where
  opens : ∀ first ∈ (rest.dropWhile Text.isWhitespace).head?, first = ':' ∨ first = '/'
  userless : '@' ∉ rest.takeWhile (· ≠ '/')

section Tame

theorem Tame.of_prefix {short rest : List Char} (tame : Tame rest) (inside : short <+: rest) :
    Tame short := by
  obtain ⟨more, rfl⟩ := inside
  constructor
  · intro first member
    apply tame.opens
    rw [List.dropWhile_append]
    split
    · rename_i empty
      rw [List.isEmpty_iff.mp empty] at member
      cases member
    · rw [List.head?_append, Option.mem_def.mp member]
      rfl
  · intro member
    apply tame.userless
    rw [List.takeWhile_append]
    split
    · exact List.mem_append_left _ (List.takeWhile_subset _ member)
    · exact member

theorem Tame.path {rest : List Char} (tame : Tame rest) (path : List Char) :
    Tame (rest ++ '/' :: path) := by
  constructor
  · intro first member
    rw [List.dropWhile_append] at member
    split at member
    · rw [List.dropWhile_cons_of_neg (by decide)] at member
      obtain rfl := Option.some.inj member
      exact .inr rfl
    · rename_i some
      apply tame.opens
      cases later : rest.dropWhile Text.isWhitespace with
      | nil =>
          rw [later] at some
          exact absurd rfl some
      | cons head tail =>
          rw [later] at member
          exact member
  · rw [List.takeWhile_append]
    split
    · rename_i whole
      have same := (List.takeWhile_prefix (· ≠ '/')).eq_of_length whole
      rw [List.takeWhile_cons_of_neg (by decide), List.append_nil, ← same]
      exact tame.userless
    · exact tame.userless

/-- The parser drops tabs and line breaks, which are white space. -/
theorem Tame.unbroken {rest : List Char} (tame : Tame rest) :
    Tame (rest.filter fun char => !isLineBreak char) := by
  have white : ∀ char, isLineBreak char = true → Text.isWhitespace char = true := by
    intro char breaks
    rw [isLineBreak, Bool.or_eq_true, Bool.or_eq_true, decide_eq_true_iff, decide_eq_true_iff,
      decide_eq_true_iff] at breaks
    rcases breaks with (rfl | rfl) | rfl <;> decide
  constructor
  · have shown : ∀ text : List Char, (text.filter fun char => !isLineBreak char).dropWhile
        Text.isWhitespace = [] ∨ ((text.filter fun char => !isLineBreak char).dropWhile
          Text.isWhitespace).head? = (text.dropWhile Text.isWhitespace).head? := by
      intro text
      induction text with
      | nil => exact .inl rfl
      | cons char text ih =>
          cases breaks : isLineBreak char with
          | true => 
              rw [List.filter_cons_of_neg (by simp [breaks]),
                List.dropWhile_cons_of_pos (white char breaks)]
              exact ih
          | false =>
              rw [List.filter_cons_of_pos (by simp [breaks])]
              by_cases space : Text.isWhitespace char = true
              · rw [List.dropWhile_cons_of_pos space, List.dropWhile_cons_of_pos space]
                exact ih
              · rw [List.dropWhile_cons_of_neg space, List.dropWhile_cons_of_neg space]
                exact .inr rfl
    intro first member
    rcases shown rest with nothing | same
    · rw [nothing] at member
      cases member
    · rw [same] at member
      exact tame.opens first member
  · intro member
    apply tame.userless
    rw [List.takeWhile_filter] at member
    have inside := (List.mem_filter.mp member).1
    have all : ∀ char : Char, (!!isLineBreak char || decide (char ≠ '/')) = decide (char ≠ '/') := by
      intro char
      cases breaks : isLineBreak char with
      | false => rfl
      | true =>
          have other : char ≠ '/' := by
            rintro rfl
            exact absurd breaks (by decide)
          simp [other]
    simp only [all] at inside
    exact inside

variable {old new : List Char}

theorem opens_rescheme (letter : ∃ more, old = 'h' :: more) {rest : List Char}
    (opens : ∀ first ∈ (rest.dropWhile Text.isWhitespace).head?, first = ':' ∨ first = '/') :
    ∀ first ∈ ((Text.rescheme old new rest).dropWhile Text.isWhitespace).head?,
      first = ':' ∨ first = '/' := by
  obtain ⟨more, rfl⟩ := letter
  induction rest with
  | nil => nofun
  | cons char rest ih =>
      by_cases space : Text.isWhitespace char = true
      · have other : char ≠ 'h' := by
          rintro rfl
          exact absurd space (by decide)
        rw [List.dropWhile_cons_of_pos space] at opens
        rw [Text.rescheme, List.cons_append, Text.replaceAll_other _ other,
          List.dropWhile_cons_of_pos space]
        exact ih opens
      · rw [List.dropWhile_cons_of_neg space] at opens
        have own := opens char rfl
        have other : char ≠ 'h' := by
          rintro rfl
          rcases own with same | same <;> exact absurd same (by decide)
        rw [Text.rescheme, List.cons_append, Text.replaceAll_other _ other,
          List.dropWhile_cons_of_neg space]
        intro first member
        obtain rfl := Option.some.inj member
        exact own

theorem userless_rescheme (plain : ∀ char ∈ new, char.isAlpha = true) {rest : List Char}
    (userless : '@' ∉ rest.takeWhile (· ≠ '/')) :
    '@' ∉ (Text.rescheme old new rest).takeWhile (· ≠ '/') := by
  induction rest with
  | nil => exact List.not_mem_nil
  | cons char rest ih =>
      by_cases here : old ++ ':' :: '/' :: '/' :: [] <+: char :: rest
      · obtain ⟨later, same⟩ := here
        have scheme : ∀ char ∈ new ++ [':'], decide (char ≠ '/') = true ∧ char ≠ '@' := by
          intro char member
          rcases List.mem_append.mp member with letter | colon
          · constructor
            · rw [decide_eq_true_iff]
              rintro rfl
              exact absurd (plain '/' letter) (by decide)
            · rintro rfl
              exact absurd (plain '@' letter) (by decide)
          · obtain rfl := List.mem_singleton.mp colon
            decide
        have whole : new ++ ':' :: '/' :: '/' :: [] ++ Text.rescheme old new later =
            (new ++ [':']) ++ '/' :: '/' :: Text.rescheme old new later := by simp
        rw [← same, Text.rescheme, Text.replaceAll_append _ (by simp), ← Text.rescheme, whole,
          List.takeWhile_append_of_pos fun char member => (scheme char member).1,
          List.takeWhile_cons_of_neg (by decide), List.append_nil]
        exact fun member => (scheme '@' member).2 rfl
      · rw [Text.rescheme, Text.replaceAll_cons _ here, ← Text.rescheme]
        by_cases slash : char = '/'
        · rw [slash, List.takeWhile_cons_of_neg (by decide)]
          exact List.not_mem_nil
        · have kept : ∀ text : List Char, (char :: text).takeWhile (· ≠ '/') =
              char :: text.takeWhile (· ≠ '/') :=
            fun text => List.takeWhile_cons_of_pos (by simpa using slash)
          rw [kept, List.mem_cons] at userless ⊢
          rintro (same | later)
          · exact userless (.inl same)
          · exact ih (fun member => userless (.inr member)) later

theorem Tame.converted {rest : List Char} (tame : Tame rest) :
    Tame (ClientStart.converted rest) := by
  have letters : (∀ char ∈ "wss".toList, char.isAlpha = true) ∧
      ∀ char ∈ "ws".toList, char.isAlpha = true :=
    ⟨Text.forall_of_all (by decide), Text.forall_of_all (by decide)⟩
  exact ⟨opens_rescheme ⟨_, rfl⟩ (opens_rescheme ⟨_, rfl⟩ tame.opens),
    userless_rescheme letters.2 (userless_rescheme letters.1 tame.userless)⟩

end Tame

section Name

/-- A text in which no `t` follows an `h` holds no scheme. -/
theorem rescheme_chain {name : List Char} (chain : name.IsChain fun char next => char = 'h' → next ≠ 't')
    (last : name.getLast? ≠ some 'h') (tail new rest : List Char) :
    Text.rescheme ('h' :: 't' :: tail) new (name ++ rest) =
      name ++ Text.rescheme ('h' :: 't' :: tail) new rest := by
  induction name with
  | nil => rfl
  | cons char name ih =>
      have apart : ¬ 'h' :: 't' :: tail ++ ':' :: '/' :: '/' :: [] <+: char :: (name ++ rest) := by
        intro here
        obtain ⟨rfl, later⟩ := List.cons_prefix_cons.mp here
        cases name with
        | nil => exact last rfl
        | cons next name =>
            obtain ⟨rfl, -⟩ := List.cons_prefix_cons.mp later
            exact (List.isChain_cons_cons.mp chain).1 rfl rfl
      have later : name.getLast? ≠ some 'h' := by
        cases name with
        | nil => nofun
        | cons next name => exact last
      rw [List.cons_append, Text.rescheme, Text.replaceAll_cons _ apart, ← Text.rescheme,
        ih chain.tail later]
      rfl

theorem converted_named {name : List Char} (named : Text.lower name ∈ loopbackNames)
    (rest : List Char) :
    ClientStart.converted (name ++ rest) = name ++ ClientStart.converted rest := by
  have each : ∀ known ∈ loopbackNames, known.IsChain (fun char next => char = 'h' → next ≠ 't') ∧
      known.getLast? ≠ some 'h' := by decide
  obtain ⟨lowered, ending⟩ := each _ named
  have chain : name.IsChain fun char next => char = 'h' → next ≠ 't' := by
    refine ((List.isChain_map Char.toLower).mp lowered).imp ?_
    rintro char next other rfl rfl
    exact other (by decide) (by decide)
  have last : name.getLast? ≠ some 'h' := by
    intro same
    apply ending
    rw [Text.lower, List.getLast?_map, same]
    decide
  have first := rescheme_chain chain last "tps".toList "wss".toList rest
  have second := rescheme_chain chain last "tp".toList "ws".toList
    (Text.rescheme "https".toList "wss".toList rest)
  have heads : 'h' :: 't' :: "tps".toList = "https".toList ∧
      'h' :: 't' :: "tp".toList = "http".toList := by decide
  rw [heads.1] at first
  rw [heads.2] at second
  rw [ClientStart.converted, first, second]
  rfl

end Name

section Local

variable {names : Names}

/-- A text of letters and white space. -/
def Loose (mark : List Char) : Prop :=
  ∀ char ∈ mark, Text.isWhitespace char = true ∨ char.isAlpha = true

theorem named_filled {name : List Char} (named : Text.lower name ∈ loopbackNames) :
    ∃ first more, name = first :: more := by
  cases name with
  | nil => exact absurd named (by decide)
  | cons first more => exact ⟨first, more, rfl⟩

/-- A name with white space after it is not the name of a host. -/
theorem readAuthority_spaced {name : List Char} (named : Text.lower name ∈ loopbackNames)
    {space : Char} (white : Text.isWhitespace space = true) {rest : List Char}
    (userless : '@' ∉ space :: rest) : readAuthority names (name ++ space :: rest) = none := by
  have plain := named_plain named
  obtain ⟨first, more, begins⟩ := named_filled named
  have whole : (name ++ space :: rest).rtakeWhile (· ≠ '@') = name ++ space :: rest := by
    rw [List.rtakeWhile_eq_self_iff]
    intro char member
    rw [decide_eq_true_iff]
    rintro rfl
    rcases List.mem_append.mp member with inside | after
    · exact absurd (plain '@' inside) (by decide)
    · exact userless after
  have other : space ≠ ':' := by
    rintro rfl
    exact absurd white (by decide)
  obtain ⟨later, cut⟩ : ∃ later, (cutHost false (space :: rest)).1 = space :: later := by
    rw [cutHost, if_neg fun both => other both.1]
    exact ⟨_, rfl⟩
  have unbracketed : ∀ rest, name ++ space :: later ≠ '[' :: rest := by
    intro rest same
    rw [begins] at same plain
    obtain rfl := (List.cons.inj same).1
    exact absurd (plain '[' List.mem_cons_self) (by decide)
  have nothing : parseHost names.toAscii (String.ofList (name ++ space :: later)) = none := by
    rw [parseHost_unbracketed unbracketed]
    cases read : names.toAscii (String.ofList (name ++ space :: later)) with
    | none => rfl
    | some domain =>
        have held : ∃ char ∈ name ++ space :: later, Text.isWhitespace char = true :=
          ⟨space, List.mem_append_right name List.mem_cons_self, white⟩
        rw [Option.bind_some, if_pos (.inr (names.solid _ held domain read))]
  rw [readAuthority, whole, cutHost_append plain, cut, nothing]

theorem loopback_of_tame {name : List Char} (named : Text.lower name ∈ loopbackNames)
    {rest : List Char} (tame : Tame rest) {origin : Origin}
    (read : readAuthority names (name ++ rest.takeWhile fun char => !closes char) = some origin) :
    IsLoopback origin.host := by
  have userless : '@' ∉ rest.takeWhile fun char => !closes char := by
    have short : (rest.takeWhile (· ≠ '/')).takeWhile (fun char => !closes char) =
        rest.takeWhile fun char => !closes char := by
      rw [List.takeWhile_takeWhile]
      congr 1
      funext char
      have both : decide (char ≠ '/') = true ∧ (!closes char) = true ↔ (!closes char) = true := by
        refine and_iff_right_of_imp fun stays => ?_
        rw [decide_eq_true_iff]
        rintro rfl
        exact absurd stays (by decide)
      simpa using both
    rw [← short]
    exact fun member => tame.userless (List.takeWhile_subset _ member)
  have unended : ∀ char ∈ rest.takeWhile fun char => !closes char, closes char = false := by
    intro char member
    simpa using List.mem_takeWhile_imp member
  have opens : ∀ first more, (rest.takeWhile fun char => !closes char) = first :: more →
      Text.isWhitespace first = true ∨ first = ':' := by
    intro first more begins
    by_cases white : Text.isWhitespace first = true
    · exact .inl white
    · cases rest with
      | nil => cases begins
      | cons head later =>
          have stays : (!closes head) = true := by
            by_contra ends
            rw [List.takeWhile_cons_of_neg (by simpa using ends)] at begins
            cases begins
          rw [List.takeWhile_cons_of_pos (by simpa using stays)] at begins
          obtain ⟨rfl, -⟩ := List.cons.inj begins
          have own := tame.opens head (by rw [List.dropWhile_cons_of_neg white]; rfl)
          rcases own with colon | rfl
          · exact .inr colon
          · exact absurd stays (by decide)
  generalize (rest.takeWhile fun char => !closes char) = authority at *
  have plain := named_plain named
  have slashless : upToSlash (name ++ authority) = name ++ authority := by
    have all : ∀ char ∈ name ++ authority, closes char = false := by
      intro char member
      rcases List.mem_append.mp member with inside | after
      · exact closes_of_plain (plain char inside)
      · exact unended char after
    have cut := upToSlash_append all (.inl rfl)
    rwa [List.append_nil] at cut
  have whole : '@' ∉ upToSlash (name ++ authority) := by
    rw [slashless]
    intro member
    rcases List.mem_append.mp member with inside | after
    · exact absurd (plain '@' inside) (by decide)
    · exact userless after
  have colonless : ∀ char ∈ name, decide (char ≠ ':') = true := by
    intro char member
    rw [decide_eq_true_iff]
    rintro rfl
    exact absurd (plain ':' member) (by decide)
  have machine : authority = [] ∨ (∃ port, authority = ':' :: port) → Named (name ++ authority) := by
    intro stops
    rw [Named, slashless, upToColon, List.takeWhile_append_of_pos colonless]
    rcases stops with rfl | ⟨port, rfl⟩
    · rwa [List.takeWhile_nil, List.append_nil]
    · rwa [List.takeWhile_cons_of_neg (by decide), List.append_nil]
  have own : Named (name ++ authority) → IsLoopback origin.host := by
    intro known
    obtain ⟨host, loopback, found⟩ : ∃ host, IsLoopback host ∧
        readAuthority names (upToSlash (name ++ authority)) =
          (parsePort (portText (name ++ authority))).map fun port => ⟨none, host, port⟩ :=
      readAuthority_named known whole
    rw [slashless, read] at found
    obtain ⟨port, -, same⟩ := Option.map_eq_some_iff.mp found.symm
    rw [← same]
    exact loopback
  cases authority with
  | nil => exact own (machine (.inl rfl))
  | cons first more =>
      rcases opens first more rfl with white | rfl
      · rw [readAuthority_spaced named white userless] at read
        cases read
      · exact own (machine (.inr ⟨more, rfl⟩))

theorem rdropWhile_solid {gone : Char → Bool} {front : List Char}
    (solid : ∀ char ∈ front, gone char = false) (back : List Char) :
    (front ++ back).rdropWhile gone = front ++ back.rdropWhile gone := by
  have kept : front.reverse.dropWhile gone = front.reverse := by
    rw [List.dropWhile_eq_self_iff]
    exact fun short => by simpa using solid _ (List.mem_reverse.mp (List.getElem_mem short))
  rw [List.rdropWhile, List.reverse_append, List.dropWhile_append, kept, List.rdropWhile]
  split
  · rename_i empty
    rw [List.isEmpty_iff.mp empty, List.reverse_nil, List.append_nil, List.reverse_reverse]
  · rw [List.reverse_append, List.reverse_reverse]

theorem isLineBreak_of_inner {char : Char} (inner : isEdge char = false) :
    isLineBreak char = false := by
  rw [← Bool.not_eq_true, isLineBreak, Bool.or_eq_true, Bool.or_eq_true, decide_eq_true_iff,
    decide_eq_true_iff, decide_eq_true_iff]
  rintro ((rfl | rfl) | rfl) <;> exact absurd inner (by decide)

theorem toNat_of_plain {char : Char} (plain : char.isAlphanum ∨ char = '.') :
    0x20 < char.toNat ∧ char.toNat < 0x80 := by
  rcases plain with letter | rfl
  · have code : char.toNat = char.val.toNat := rfl
    delta Char.isAlphanum Char.isAlpha Char.isUpper Char.isLower Char.isDigit at letter
    simp only [Bool.or_eq_true, Bool.and_eq_true, decide_eq_true_iff, ge_iff_le, UInt32.le_iff_toNat_le]
      at letter
    simp at letter
    omega
  · decide

/-- What the parser drops around a URL leaves a loose mark, the name and a tame rest. -/
theorem cleaned_marked {mark name rest : List Char} (loose : Loose mark)
    (named : Text.lower name ∈ loopbackNames) (tame : Tame rest) :
    ∃ front back, cleaned (mark ++ ':' :: '/' :: '/' :: (name ++ rest)) =
      front ++ ':' :: '/' :: '/' :: (name ++ back) ∧ Loose front ∧ Tame back := by
  have solid : ∀ char ∈ ':' :: '/' :: '/' :: name, isEdge char = false ∧ isLineBreak char = false := by
    intro char member
    rw [List.mem_cons, List.mem_cons, List.mem_cons] at member
    rcases member with rfl | rfl | rfl | inside
    · decide
    · decide
    · decide
    · have high := toNat_of_plain (named_plain named char inside)
      have edge : isEdge char = false := decide_eq_false (by omega)
      exact ⟨edge, isLineBreak_of_inner edge⟩
  have text : mark ++ ':' :: '/' :: '/' :: (name ++ rest) =
      mark ++ ((':' :: '/' :: '/' :: name) ++ rest) := rfl
  refine ⟨(mark.dropWhile isEdge).filter fun char => !isLineBreak char,
    (rest.rdropWhile isEdge).filter fun char => !isLineBreak char, ?_, ?_,
    (tame.of_prefix (List.rdropWhile_prefix _ _)).unbroken⟩
  · have front : (mark ++ ((':' :: '/' :: '/' :: name) ++ rest)).dropWhile isEdge =
        mark.dropWhile isEdge ++ ((':' :: '/' :: '/' :: name) ++ rest) := by
      rw [List.dropWhile_append]
      split
      · rename_i empty
        rw [List.isEmpty_iff.mp empty, List.cons_append, List.dropWhile_cons_of_neg (by decide)]
        rfl
      · rfl
    have stays : ∃ char ∈ (':' :: '/' :: '/' :: name) ++ rest, isEdge char = false :=
      ⟨':', List.mem_cons_self, by decide⟩
    have whole : ((':' :: '/' :: '/' :: name).filter fun char => !isLineBreak char) =
        ':' :: '/' :: '/' :: name :=
      List.filter_eq_self.mpr fun char member => by simp [(solid char member).2]
    rw [cleaned, text, front, ClientStart.rdropWhile_append stays,
      rdropWhile_solid fun char member => (solid char member).1, List.filter_append,
      List.filter_append, whole]
    rfl
  · intro char member
    exact loose char ((List.dropWhile_sublist _).subset (List.mem_filter.mp member).1)

/-- A name of this machine before a tame rest is the host that the parser reads. -/
theorem loopback_of_parse {mark name rest : List Char} (loose : Loose mark)
    (named : Text.lower name ∈ loopbackNames) (tame : Tame rest) {origin : Origin}
    (read : parse names (mark ++ ':' :: '/' :: '/' :: (name ++ rest)) = some origin) :
    IsLoopback origin.host := by
  obtain ⟨front, back, cut, loosely, tamely⟩ := cleaned_marked loose named tame
  obtain ⟨first, more, begins⟩ := named_filled named
  have plain := named_plain named
  have slashes : ('/' :: '/' :: (name ++ back)).dropWhile isSlash = name ++ back := by
    have own := plain first (by rw [begins]; exact List.mem_cons_self)
    have other : ¬ isSlash first = true := by
      rw [isSlash, Bool.or_eq_true, decide_eq_true_iff, decide_eq_true_iff]
      rintro (rfl | rfl) <;> exact absurd own (by decide)
    rw [List.dropWhile_cons_of_pos (by decide), List.dropWhile_cons_of_pos (by decide), begins,
      List.cons_append, List.dropWhile_cons_of_neg other]
  have unended : ∀ char ∈ name, (!closes char) = true := by
    intro char member
    simp [closes_of_plain (plain char member)]
  rw [parse, cut] at read
  split at read
  · rename_i marked
    rw [List.dropWhile_append] at marked
    split at marked
    · rw [List.dropWhile_cons_of_neg (by decide)] at marked
      obtain rfl := (List.cons.inj marked).2
      split at read
      · rw [slashes, List.takeWhile_append_of_pos unended] at read
        exact loopback_of_tame named tamely read
      · cases read
    · rename_i some
      cases later : front.dropWhile isSchemeChar with
      | nil =>
          rw [later] at some
          exact absurd rfl some
      | cons head tail =>
          rw [later] at marked
          obtain rfl := (List.cons.inj marked).1
          have inside : ':' ∈ front :=
            (List.dropWhile_sublist isSchemeChar).subset (by rw [later]; exact List.mem_cons_self)
          exact absurd (loosely ':' inside) (by decide)
  · cases read

/-- A backend of this machine: white space and a scheme, the name, and a tame rest. -/
theorem shape_of_named {backend : String} {scheme rest : List Char}
    (checks : Checks (Text.trim backend).toList scheme rest) (named : Named rest) :
    ∃ mark name tail, backend.toList = mark ++ ':' :: '/' :: '/' :: (name ++ tail) ∧
      Loose mark ∧ Text.lower name ∈ loopbackNames ∧ Tame tail := by
  obtain ⟨lead, trail, text, leads, trails⟩ := Text.trim_parts backend
  obtain ⟨path, whole, stops⟩ := upToSlash_stops rest
  refine ⟨lead ++ scheme, upToColon (upToSlash rest),
    (upToSlash rest).dropWhile (· ≠ ':') ++ path ++ trail, ?_, ?_, named, ?_⟩
  · have own : rest = upToColon (upToSlash rest) ++ (upToSlash rest).dropWhile (· ≠ ':') ++ path := by
      rw [upToColon, List.takeWhile_append_dropWhile]
      exact whole
    rw [text, checks.spelling, spelled]
    conv_lhs => rw [own]
    simp
  · intro char member
    rcases List.mem_append.mp member with white | letter
    · exact .inl (leads char white)
    · exact .inr (isSchemeChar_of_known checks.scheme char letter)
  · have user : ∀ char ∈ (upToSlash rest).dropWhile (· ≠ ':'), char ≠ '@' := by
      rintro char member rfl
      exact checks.userless ((List.dropWhile_sublist _).subset member)
    have white : ∀ char ∈ trail, char ≠ '@' := by
      rintro char member rfl
      exact absurd (trails '@' member) (by decide)
    have blank : trail.dropWhile Text.isWhitespace = [] := List.dropWhile_eq_nil_iff.mpr trails
    have opens : ∀ first ∈ ((upToSlash rest).dropWhile (· ≠ ':')).head?, first = ':' := by
      intro first member
      have colon := List.head?_dropWhile_not (· ≠ ':') (upToSlash rest)
      rw [Option.mem_def.mp member] at colon
      simpa using colon
    generalize (upToSlash rest).dropWhile (· ≠ ':') = port at *
    rcases stops with rfl | ⟨path, rfl⟩
    · rw [List.append_nil]
      constructor
      · cases port with
        | nil =>
            rw [List.nil_append, blank]
            intro first member
            cases member
        | cons first port =>
            obtain rfl := opens first rfl
            rw [List.cons_append, List.dropWhile_cons_of_neg (by decide)]
            intro head member
            cases member
            exact .inl rfl
      · intro member
        rcases List.mem_append.mp (List.takeWhile_subset _ member) with inside | after
        · exact user '@' inside rfl
        · exact white '@' after rfl
    · rw [List.append_assoc]
      refine Tame.path ⟨?_, fun member => user '@' (List.takeWhile_subset _ member) rfl⟩ _
      cases port with
      | nil =>
          intro first member
          cases member
      | cons first port =>
          obtain rfl := opens first rfl
          rw [List.dropWhile_cons_of_neg (by decide)]
          intro head member
          cases member
          exact .inl rfl

theorem stripped_named {backend : String} {mark name tail : List Char}
    (text : backend.toList = mark ++ ':' :: '/' :: '/' :: (name ++ tail))
    (named : Text.lower name ∈ loopbackNames) : ClientStart.stripped backend =
      mark ++ ':' :: '/' :: '/' :: (name ++ tail.rdropWhile fun char => char = '/') := by
  have slashless : ∀ char ∈ name, decide (char = '/') = false := by
    intro char member
    rw [decide_eq_false_iff_not]
    rintro rfl
    exact absurd (named_plain named '/' member) (by decide)
  obtain ⟨first, more, begins⟩ := named_filled named
  have stays : ∃ char ∈ name ++ tail, decide (char = '/') = false :=
    ⟨first, by simp [begins], slashless first (by simp [begins])⟩
  have whole : backend.toList = (mark ++ ':' :: '/' :: '/' :: []) ++ (name ++ tail) := by
    rw [text]
    simp
  rw [ClientStart.stripped, whole, ClientStart.rdropWhile_append stays, rdropWhile_solid slashless]
  simp

theorem convertedMark_loose {mark : List Char} (loose : Loose mark) :
    ∃ other, ClientStart.convertedMark (mark ++ [':']) = other ++ [':'] ∧ Loose other := by
  have letters : (∀ char ∈ "wss".toList, char.isAlpha = true) ∧
      ∀ char ∈ "ws".toList, char.isAlpha = true :=
    ⟨Text.forall_of_all (by decide), Text.forall_of_all (by decide)⟩
  have colons : "https:".toList = "https".toList ++ [':'] ∧ "http:".toList = "http".toList ++ [':'] ∧
      "wss:".toList = "wss".toList ++ [':'] ∧ "ws:".toList = "ws".toList ++ [':'] := by decide
  have loosely : ∀ {front old new : List Char}, mark ++ [':'] = front ++ (old ++ [':']) →
      (∀ char ∈ new, char.isAlpha = true) → Loose (front ++ new) := by
    intro front old new same plain char member
    rw [← List.append_assoc] at same
    obtain rfl := List.append_cancel_right same
    rcases List.mem_append.mp member with before | letter
    · exact loose char (List.mem_append_left old before)
    · exact .inr (plain char letter)
  rcases ClientStart.convertedMark_cases (mark ++ [':']) with ⟨front, same, changed⟩ |
    ⟨front, same, changed⟩ | ⟨-, -, same⟩
  · rw [colons.1] at same
    exact ⟨front ++ "wss".toList, by rw [changed, colons.2.2.1, List.append_assoc],
      loosely same letters.1⟩
  · rw [colons.2.1] at same
    exact ⟨front ++ "ws".toList, by rw [changed, colons.2.2.2, List.append_assoc],
      loosely same letters.2⟩
  · exact ⟨mark, same, loose⟩

/-- Whatever is dialled for an accepted backend without encryption is this machine. -/
theorem dialled_loopback {backend : String} (ok : validateBackendUrl backend = .ok ())
    {scheme rest : List Char} (text : (Text.trim backend).toList = spelled scheme rest)
    (plainly : Text.lower scheme ∈ plainSchemes) {url : List Char} (dialled : Dialled backend url)
    {origin : Origin} (read : parse names url = some origin) : IsLoopback origin.host := by
  obtain ⟨other, more, checks, own⟩ := (validate_ok_iff backend).mp ok
  have known : Text.lower scheme ∈ schemes := List.mem_append_right secureSchemes plainly
  obtain ⟨rfl, rfl⟩ := spelled_inj known checks.scheme (text.symm.trans checks.spelling)
  obtain ⟨mark, name, tail, whole, loose, named, tame⟩ := shape_of_named checks (own plainly)
  have short := stripped_named whole named
  have tamely := tame.of_prefix (List.rdropWhile_prefix (fun char => decide (char = '/')) tail)
  generalize (tail.rdropWhile fun char => decide (char = '/')) = rest at short tamely
  cases dialled with
  | given =>
      rw [whole] at read
      exact loopback_of_parse loose named tame read
  | request path =>
      have url : ClientStart.stripped backend ++ '/' :: path =
          mark ++ ':' :: '/' :: '/' :: (name ++ (rest ++ '/' :: path)) := by
        rw [short]
        simp
      rw [url] at read
      exact loopback_of_parse loose named (tamely.path path) read
  | socket path =>
      have relative : ¬ ClientStart.IsSocket (String.ofList ('/' :: path)).toList := by
        rw [String.toList_ofList]
        rintro (inside | inside) <;> exact absurd (List.cons_prefix_cons.mp inside).1 (by decide)
      rw [ClientStart.endpoint_toList, if_neg relative] at read
      split at read
      · rw [whole] at read
        exact loopback_of_parse loose named tame read
      · have free : Text.Unended (mark ++ [':']) := by
          intro char member
          rcases List.mem_append.mp member with inside | last
          · rcases loose char inside with white | letter
            · exact (ClientStart.separates (by decide) white).2
            · exact (ClientStart.separates (by decide) letter).2
          · obtain rfl := List.mem_singleton.mp last
            rfl
        have marked : mark ++ ':' :: '/' :: '/' :: (name ++ rest) =
            (mark ++ [':']) ++ '/' :: '/' :: (name ++ rest) := by simp
        obtain ⟨front, exchanged, loosely⟩ := convertedMark_loose loose
        have added : Tame (ClientStart.converted rest ++
            ClientStart.added backend (String.ofList ('/' :: path))) := by
          rw [ClientStart.added, String.toList_ofList]
          split
          · rw [List.append_nil]
            exact tamely.converted
          · exact tamely.converted.path path
        have url : ClientStart.converted (ClientStart.stripped backend) ++
            ClientStart.added backend (String.ofList ('/' :: path)) =
              front ++ ':' :: '/' :: '/' :: (name ++ (ClientStart.converted rest ++
                ClientStart.added backend (String.ofList ('/' :: path)))) := by
          rw [short, marked, ClientStart.converted_slashes free, exchanged, converted_named named]
          simp
        rw [url] at read
        exact loopback_of_parse loosely named added read

end Local

/-- A backend is accepted just where it is allowed, and without encryption only this machine is
dialled for it. -/
structure Admits (names : Names) (backend : String) : Prop where
  exactly : validateBackendUrl backend = .ok () ↔ Allowed names (Text.trim backend).toList
  safely : validateBackendUrl backend = .ok () → ∀ scheme rest,
    (Text.trim backend).toList = spelled scheme rest → Text.lower scheme ∈ plainSchemes →
      ∀ url origin, Dialled backend url → parse names url = some origin → IsLoopback origin.host

/-- Exactly the allowed backends are admitted, but for those that pass the checks and that the
parser reads in another way. -/
theorem admits_allowed_iff (names : Names) (backend : String) :
    Admits names backend ↔ ∀ scheme rest, Checks (Text.trim backend).toList scheme rest →
      Agrees names scheme rest := by
  rw [← accepts_iff]
  constructor
  · exact fun admits => admits.exactly
  · intro exactly
    refine ⟨exactly, ?_⟩
    intro ok scheme rest text plainly url origin dialled read
    exact dialled_loopback ok text plainly dialled read

theorem isWhitespace_of_plain {char : Char} (plain : char.isAlphanum ∨ char = '.') :
    Text.isWhitespace char = false := by
  obtain ⟨low, high⟩ := toNat_of_plain plain
  rw [Text.isWhitespace]
  generalize char.toNat = code at low high
  simp
  omega

/-- Names of letters, digits and dots only. -/
def plainNames : Names where
  toAscii text :=
    if text.toList ≠ [] ∧ (text.toList.all fun char => char.isAlphanum || char = '.') = true then
      some (String.ofList (Text.lower text.toList))
    else none
  plain := by
    intro text filled plain
    have all : (text.all fun char => char.isAlphanum || char = '.') = true := by
      simpa using plain
    rw [String.toList_ofList, if_pos ⟨filled, all⟩]
  solid := by
    rintro text ⟨char, member, white⟩ ascii read
    rw [String.toList_ofList] at read
    split at read
    · rename_i both
      have plain := List.all_eq_true.mp both.2 char member
      rw [isWhitespace_of_plain (by simpa using plain)] at white
      cases white
    · cases read

/-- The address `[::1]` is this machine, and it is turned away. A port that is no number passes. -/
theorem bracketed_address_rejected : ¬ Admits plainNames "http://[::1]:8080" ∧
    ¬ Admits plainNames "http://localhost:port" := by
  constructor
  · intro admits
    have allowed : Allowed plainNames (Text.trim "http://[::1]:8080").toList := by
      have clean : ∀ char ∈ (Text.trim "http://[::1]:8080").toList,
          Text.isControl char = false ∧ char ≠ ' ' := Text.forall_of_all (by decide)
      have read : parse plainNames (Text.trim "http://[::1]:8080").toList =
          some ⟨none, .ipv6 1#128, some 8080⟩ := by decide
      exact ⟨clean, "http".toList, "[::1]:8080".toList, [], _, by decide, by decide,
        Text.forall_of_all (by decide), .inl rfl, read, rfl, .inr (by decide)⟩
    exact absurd (admits.exactly.mpr allowed) (by decide)
  · intro admits
    have allowed := admits.exactly.mp (by decide)
    obtain ⟨scheme, authority, tail, origin, -, -, -, -, read, -⟩ := allowed.shape
    have nothing : parse plainNames (Text.trim "http://localhost:port").toList = none := by
      decide
    rw [nothing] at read
    cases read

end Daemon.BackendUrl
