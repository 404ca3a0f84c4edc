import SynthHiresBridge.Data.Fallible
import SynthHiresBridge.Data.Replace
import SynthHiresBridge.Data.UrlHost

namespace WebUrl

open UrlHost

/-- The names of hosts as they stand in a request. A name of letters, digits and dots is brought to
lower case only, and a name with white space is not allowed. -/
structure Names where
  toAscii : String → Option String
  plain : ∀ text : List Char, text ≠ [] → (∀ char ∈ text, char.isAlphanum ∨ char = '.') →
    toAscii (String.ofList text) = some (String.ofList (Text.lower text))
  solid : ∀ text : List Char, (∃ char ∈ text, Text.isWhitespace char = true) →
    ∀ ascii, toAscii (String.ofList text) = some ascii → ascii.toList.any forbidden = true

/-- What the parser reads before the path of a URL. -/
structure Origin where
  userinfo : Option (List Char)
  host : Host
  port : Option Nat
  deriving DecidableEq

def isEdge (char : Char) : Bool := char.toNat ≤ 0x20

def isLineBreak (char : Char) : Bool := char = '\t' || char = '\n' || char = '\r'

/-- A URL is read without the controls and spaces around it and without the tabs and line breaks in
it. -/
def cleaned (text : List Char) : List Char :=
  ((text.dropWhile isEdge).rdropWhile isEdge).filter fun char => !isLineBreak char

def isSlash (char : Char) : Bool := char = '/' || char = '\\'

/-- The authority of a web URL ends at one of these. -/
def closes (char : Char) : Bool := Text.ends char || char = '\\'

/-- A host ends at the first colon that is not in brackets. -/
def cutHost : Bool → List Char → List Char × Option (List Char)
  | _, [] => ([], none)
  | inside, char :: rest =>
      if char = ':' ∧ inside = false then ([], some rest)
      else
        let cut := cutHost (if char = '[' then true else if char = ']' then false else inside) rest
        (char :: cut.1, cut.2)

/-- A port is a number below 2¹⁶, and it may be left out. -/
def parsePort : Option (List Char) → Option (Option Nat)
  | none => some none
  | some [] => some none
  | some text =>
      match (text.mapM (digit 10)).map (ofDigits 10) with
      | none => none
      | some number => if number ≤ 65535 then some (some number) else none

variable (names : Names)

/-- The user stands before the last `@`. -/
def readAuthority (authority : List Char) : Option Origin :=
  let userinfo := if authority.contains '@' then
    some (authority.rdropWhile (· ≠ '@')).dropLast else none
  let cut := cutHost false (authority.rtakeWhile (· ≠ '@'))
  match parseHost names.toAscii (String.ofList cut.1), parsePort cut.2 with
  | some host, some port => some ⟨userinfo, host, port⟩
  | _, _ => none

def isSchemeChar (char : Char) : Bool :=
  char.isAlphanum || char = '+' || char = '-' || char = '.'

def schemes : List (List Char) :=
  ["https".toList, "wss".toList, "http".toList, "ws".toList]

/-- A URL of a web server or of a socket, and any number of slashes stand before its authority. -/
def parse (text : List Char) : Option Origin :=
  let url := cleaned text
  match url.dropWhile isSchemeChar with
  | ':' :: rest =>
      if Text.lower (url.takeWhile isSchemeChar) ∈ schemes then
        readAuthority names ((rest.dropWhile isSlash).takeWhile fun char => !closes char)
      else none
  | _ => none

section Parse

variable {names}

/-- A port has digits only. -/
theorem digits_of_port {port : List Char} (read : (parsePort (some port)).isSome) :
    ∀ char ∈ port, (digit 10 char).isSome := by
  cases port with
  | nil => nofun
  | cons first more =>
      rw [parsePort] at read
      · cases digits : (first :: more).mapM (digit 10) with
        | none =>
            rw [digits] at read
            cases read
        | some values => exact Option.isSome_of_mapM digits
      · nofun

theorem isSchemeChar_of_known {scheme : List Char} (known : Text.lower scheme ∈ schemes) :
    ∀ char ∈ scheme, char.isAlpha = true := by
  intro char member
  apply Text.isAlpha_of_toLower
  have inside : char.toLower ∈ Text.lower scheme := List.mem_map_of_mem member
  have letters : ∀ known ∈ schemes, known.all Char.isAlpha = true := by decide
  exact List.all_eq_true.mp (letters _ known) _ inside

/-- A text that is clean at both ends and has no line break in it. -/
theorem cleaned_eq {text : List Char} (solid : ∀ char ∈ text, isEdge char = false) :
    cleaned text = text := by
  have breaks : ∀ char ∈ text, isLineBreak char = false := by
    intro char member
    have beyond := solid char member
    rw [isEdge, decide_eq_false_iff_not] at beyond
    rw [isLineBreak, Bool.or_eq_false_iff, Bool.or_eq_false_iff, decide_eq_false_iff_not,
      decide_eq_false_iff_not, decide_eq_false_iff_not]
    refine ⟨⟨?_, ?_⟩, ?_⟩
    · rintro rfl
      exact beyond (by decide)
    · rintro rfl
      exact beyond (by decide)
    · rintro rfl
      exact beyond (by decide)
  have front : text.dropWhile isEdge = text :=
    List.dropWhile_eq_self_iff.mpr fun short => by simpa using solid _ (List.getElem_mem short)
  have back : text.rdropWhile isEdge = text := by
    rw [List.rdropWhile_eq_self_iff]
    exact fun some => by simpa using solid _ (List.getLast_mem some)
  rw [cleaned, front, back, List.filter_eq_self]
  exact fun char member => by simp [breaks char member]

/-- The parser reads a clean URL up to the end of its authority. -/
theorem parse_eq {scheme rest : List Char} (known : Text.lower scheme ∈ schemes)
    (solid : ∀ char ∈ scheme ++ ':' :: '/' :: '/' :: rest, isEdge char = false) :
    parse names (scheme ++ ':' :: '/' :: '/' :: rest) =
      readAuthority names ((rest.dropWhile isSlash).takeWhile fun char => !closes char) := by
  have letters : ∀ char ∈ scheme, isSchemeChar char = true := by
    intro char member
    rw [isSchemeChar, Char.isAlphanum, isSchemeChar_of_known known char member]
    rfl
  have colon : isSchemeChar ':' = false := by decide
  have front : (scheme ++ ':' :: '/' :: '/' :: rest).takeWhile isSchemeChar = scheme := by
    rw [List.takeWhile_append_of_pos letters, List.takeWhile_cons_of_neg (by simp [colon]),
      List.append_nil]
  have back : (scheme ++ ':' :: '/' :: '/' :: rest).dropWhile isSchemeChar =
      ':' :: '/' :: '/' :: rest := by
    rw [List.dropWhile_append_of_pos letters, List.dropWhile_cons_of_neg (by simp [colon])]
  have slashes : ('/' :: '/' :: rest).dropWhile isSlash = rest.dropWhile isSlash := by
    rw [List.dropWhile_cons_of_pos (by decide), List.dropWhile_cons_of_pos (by decide)]
  rw [parse, cleaned_eq solid, front, back]
  simp only [if_pos known, slashes]

/-- Letters, digits and dots do not end a host. -/
theorem cutHost_append {name : List Char} (plain : ∀ char ∈ name, char.isAlphanum ∨ char = '.')
    (rest : List Char) :
    cutHost false (name ++ rest) = (name ++ (cutHost false rest).1, (cutHost false rest).2) := by
  induction name with
  | nil => rfl
  | cons char name ih =>
      obtain ⟨own, later⟩ := List.forall_mem_cons.mp plain
      have other : ∀ mark : Char, mark.isAlphanum = false → mark ≠ '.' → char ≠ mark := by
        rintro mark letterless dotless rfl
        rcases own with letter | dot
        · rw [letterless] at letter
          cases letter
        · exact dotless dot
      rw [List.cons_append, cutHost, if_neg fun both => other ':' (by decide) (by decide) both.1,
        if_neg (other '[' (by decide) (by decide)), if_neg (other ']' (by decide) (by decide)),
        ih later]
      rfl

theorem cutHost_plain {name : List Char} (plain : ∀ char ∈ name, char.isAlphanum ∨ char = '.')
    {rest : List Char} (stops : rest = [] ∨ ∃ port, rest = ':' :: port) :
    cutHost false (name ++ rest) = (name, rest.tail?) := by
  rw [cutHost_append plain]
  rcases stops with rfl | ⟨port, rfl⟩
  · rw [cutHost, List.append_nil]
    rfl
  · rw [cutHost, if_pos ⟨rfl, rfl⟩, List.append_nil]
    rfl

/-- A host without brackets is a name or an address of four bytes. -/
theorem parseHost_unbracketed {toAscii : String → Option String} {text : List Char}
    (unbracketed : ∀ rest, text ≠ '[' :: rest) :
    parseHost toAscii (String.ofList text) = (toAscii (String.ofList text)).bind fun domain =>
      if domain = "" ∨ domain.toList.any forbidden then none
      else if endsInNumber domain.toList then (parseIpv4 domain.toList).map .ipv4
      else some (.domain domain) := by
  rw [parseHost, String.toList_ofList]
  split
  · rename_i rest
    exact absurd rfl (unbracketed rest)
  · cases toAscii (String.ofList text) <;> rfl

/-- A plain name is parsed in lower case. -/
theorem parseHost_plain {name : List Char} (some : name ≠ [])
    (plain : ∀ char ∈ name, char.isAlphanum ∨ char = '.') :
    parseHost names.toAscii (String.ofList name) =
      parseHost .some (String.ofList (Text.lower name)) := by
  have head : ∀ rest, name ≠ '[' :: rest := by
    rintro rest rfl
    exact absurd (plain '[' List.mem_cons_self) (by decide)
  have lowered : ∀ rest, Text.lower name ≠ '[' :: rest := by
    intro rest same
    obtain ⟨first, more, rfl, bracket, -⟩ := List.map_eq_cons_iff.mp same
    exact head more (by rw [Text.toLower_eq (by decide) bracket])
  rw [parseHost_unbracketed head, parseHost_unbracketed lowered, names.plain name some plain]

end Parse

end WebUrl
