import SynthHiresBridge.Data.Utf8

namespace Pathspec

/-- A file name is any bytes. -/
abbrev Name := List UInt8

/-- A byte that stands for itself in a listing. -/
def isPlain (byte : UInt8) : Bool :=
  0x20 ≤ byte.toNat && byte.toNat < 0x7F && byte != 0x22 && byte != 0x5C

/-- The letter of a byte that is escaped by one. -/
def letter (byte : UInt8) : Option Char :=
  if byte = 0x07 then some 'a'
  else if byte = 0x08 then some 'b'
  else if byte = 0x09 then some 't'
  else if byte = 0x0A then some 'n'
  else if byte = 0x0B then some 'v'
  else if byte = 0x0C then some 'f'
  else if byte = 0x0D then some 'r'
  else if byte = 0x22 then some '"'
  else if byte = 0x5C then some '\\'
  else none

def octal (digit : Nat) : Char := Char.ofNat (48 + digit % 8)

def char (byte : UInt8) : Char := Char.ofNat byte.toNat

/-- A byte of a quoted name is itself, a letter after a backslash, or three octal digits after one. -/
def escape (byte : UInt8) : List Char :=
  if isPlain byte then [char byte]
  else match letter byte with
    | some name => ['\\', name]
    | none => ['\\', octal (byte.toNat / 64), octal (byte.toNat / 8), octal byte.toNat]

/-- A name with an unusual byte is quoted as in C. -/
def quote (name : Name) : List Char :=
  if name.all isPlain then name.map char else '"' :: name.flatMap escape ++ ['"']

/-- The parts around a change make a name, and the slash between them may belong to both. -/
def Joined (front middle back name : Name) : Prop :=
  name = front ++ middle ++ back ∨
    (middle = [] ∧ ∃ before after, front = before ++ [0x2F] ∧ back = 0x2F :: after ∧
      name = before ++ 0x2F :: after)

/-- A listing spells a changed name by itself and a renamed one with both names, and it writes the
parts that two plain names share only once. -/
inductive Spelled : Option Name → Name → List Char → Prop where
  | own (name : Name) : Spelled none name (quote name)
  | arrow (old name : Name) : Spelled (some old) name (quote old ++ " => ".toList ++ quote name)
  | braces {front before middle back old name : Name} (plain : old.all isPlain ∧ name.all isPlain)
      (was : Joined front before back old) (now : Joined front middle back name) :
      Spelled (some old) name (front.map char ++ '{' :: before.map char ++ " => ".toList ++
        middle.map char ++ '}' :: back.map char)

/-- A printable character of ASCII. -/
def Printable (char : Char) : Prop := 0x20 ≤ char.toNat ∧ char.toNat < 0x7F

instance (char : Char) : Decidable (Printable char) := inferInstanceAs (Decidable (_ ∧ _))

theorem toNat_char {byte : UInt8} (ascii : byte.toNat < 0x7F) : (char byte).toNat = byte.toNat :=
  Text.toNat_ofNat (.inl (by omega))

theorem isPlain_iff {byte : UInt8} : isPlain byte = true ↔
    (0x20 ≤ byte.toNat ∧ byte.toNat < 0x7F) ∧ byte ≠ 0x22 ∧ byte ≠ 0x5C := by
  simp [isPlain, and_assoc]

theorem printable_of_isPlain {byte : UInt8} (plain : isPlain byte = true) :
    Printable (char byte) := by
  have range := (isPlain_iff.mp plain).1
  rw [Printable, toNat_char range.2]
  exact range

theorem printable_octal (digit : Nat) : Printable (octal digit) := by
  have small : digit % 8 < 8 := Nat.mod_lt _ (by decide)
  have code : (octal digit).toNat = 48 + digit % 8 := Text.toNat_ofNat (.inl (by omega))
  rw [Printable, code]
  omega

theorem printable_letter {byte : UInt8} {name : Char} (named : letter byte = some name) :
    Printable name := by
  unfold letter at named
  split_ifs at named <;> obtain rfl := Option.some.inj named <;> decide

theorem printable_escape (byte : UInt8) : ∀ mark ∈ escape byte, Printable mark := by
  have slash : Printable '\\' := by decide
  rw [escape]
  split_ifs with plain
  · exact List.forall_mem_singleton.mpr (printable_of_isPlain plain)
  · cases named : letter byte with
    | some name => simp [slash, printable_letter named]
    | none => simp [slash, printable_octal]

theorem printable_map {name : Name} (plain : name.all isPlain = true) :
    ∀ mark ∈ name.map char, Printable mark := by
  rw [List.forall_mem_map]
  exact fun byte member => printable_of_isPlain (List.all_eq_true.mp plain byte member)

theorem printable_quote (name : Name) : ∀ mark ∈ quote name, Printable mark := by
  have quotation : Printable '"' := by decide
  rw [quote]
  split_ifs with plain
  · exact printable_map plain
  · intro mark member
    rcases List.mem_append.mp member with inner | last
    · rcases List.mem_cons.mp inner with rfl | escaped
      · exact quotation
      · obtain ⟨byte, -, inside⟩ := List.mem_flatMap.mp escaped
        exact printable_escape byte mark inside
    · rw [List.mem_singleton.mp last]
      exact quotation

theorem Joined.subset {front middle back name : Name} (joined : Joined front middle back name) :
    ∀ byte, byte ∈ front ∨ byte ∈ middle ∨ byte ∈ back ↔ byte ∈ name := by
  intro byte
  rcases joined with rfl | ⟨rfl, before, after, rfl, rfl, rfl⟩
  · simp only [List.mem_append, or_assoc]
  · simp only [List.mem_append, List.mem_cons, List.not_mem_nil, or_false, false_or]
    tauto

theorem Joined.length_le {front middle back name : Name} (joined : Joined front middle back name) :
    name.length ≤ front.length + middle.length + back.length := by
  rcases joined with rfl | ⟨rfl, before, after, rfl, rfl, rfl⟩
  · exact Nat.le_of_eq (by rw [List.length_append, List.length_append])
  · simp only [List.length_append, List.length_cons, List.length_nil]
    omega

/-- A listing is printable ASCII. -/
theorem Spelled.printable {old : Option Name} {name : Name} {text : List Char}
    (spelled : Spelled old name text) : ∀ mark ∈ text, Printable mark := by
  have arrow : ∀ mark ∈ " => ".toList, Printable mark := Text.forall_of_all (by decide)
  cases spelled with
  | own => exact printable_quote name
  | arrow first =>
      simp only [List.forall_mem_append]
      exact ⟨⟨printable_quote first, arrow⟩, printable_quote name⟩
  | @braces front before middle back first _ plain was now =>
      have part : ∀ {list whole : Name}, whole.all isPlain = true → (∀ byte ∈ list, byte ∈ whole) →
          ∀ mark ∈ list.map char, Printable mark := by
        intro list whole every inside
        apply printable_map
        rw [List.all_eq_true] at every ⊢
        exact fun byte member => every byte (inside byte member)
      have opening : Printable '{' := by decide
      have closing : Printable '}' := by decide
      simp only [List.forall_mem_append, List.forall_mem_cons]
      refine ⟨⟨⟨⟨part plain.2 fun byte member => (now.subset byte).mp (.inl member), opening,
        part plain.1 fun byte member => (was.subset byte).mp (.inr (.inl member))⟩, arrow⟩,
        part plain.2 fun byte member => (now.subset byte).mp (.inr (.inl member))⟩, closing,
        part plain.2 fun byte member => (now.subset byte).mp (.inr (.inr member))⟩

theorem length_escape (byte : UInt8) : 1 ≤ (escape byte).length := by
  rw [escape]
  split_ifs
  · exact Nat.le_refl 1
  · cases letter byte <;> simp

theorem length_le_flatMap (name : Name) : name.length ≤ (name.flatMap escape).length := by
  induction name with
  | nil => exact Nat.le_refl 0
  | cons byte name ih =>
      have own := length_escape byte
      rw [List.flatMap_cons, List.length_append, List.length_cons]
      omega

/-- A quoted name is longer than the name. -/
theorem length_lt_quote {name : Name} (unusual : name.all isPlain = false) :
    name.length < (quote name).length := by
  have inner := length_le_flatMap name
  rw [quote, if_neg (Bool.eq_false_iff.mp unusual)]
  simp only [List.length_append, List.length_cons]
  omega

theorem length_le_quote (name : Name) : name.length ≤ (quote name).length := by
  cases plain : name.all isPlain with
  | true => exact Nat.le_of_eq (by rw [quote, if_pos plain, List.length_map])
  | false => exact Nat.le_of_lt (length_lt_quote plain)

/-- A listing is the name itself, or it is longer. -/
theorem Spelled.own_or_longer {old : Option Name} {name : Name} {text : List Char}
    (spelled : Spelled old name text) :
    (old = none ∧ name.all isPlain = true ∧ text = name.map char) ∨ name.length < text.length := by
  cases spelled with
  | own =>
      cases plain : name.all isPlain with
      | true => exact .inl ⟨rfl, rfl, by rw [quote, if_pos plain]⟩
      | false => exact .inr (length_lt_quote plain)
  | arrow first =>
      right
      have own := length_le_quote name
      have four : " => ".toList.length = 4 := rfl
      rw [List.length_append, List.length_append, four]
      omega
  | braces plain was now =>
      right
      have whole := now.length_le
      simp only [List.length_append, List.length_cons, List.length_map]
      omega

/-- The wildcards of a pathspec. -/
def wildcards : Name := [0x2A, 0x3F, 0x5B, 0x5C]

def wild (spec : Name) : Bool := spec.any wildcards.contains

/-- A literal pathspec names a file, or a directory above it. -/
def reaches (spec name : Name) : Bool :=
  spec = name || (spec ++ [0x2F]).isPrefixOf name ||
    (spec.getLast? = some 0x2F && spec.isPrefixOf name)

/-- What one pathspec adds to a selection, or takes from it. -/
structure Element where
  excludes : Bool
  covers : Name → Bool

/-- The wildcard match, and what git makes of a pathspec that begins with a colon. -/
structure Rules where
  glob : Name → Name → Bool
  magic : Name → Option Element

def Rules.element (rules : Rules) (spec : Name) : Option Element :=
  if spec = [] then none
  else if spec.head? = some 0x3A then rules.magic spec
  else some ⟨false, fun name => reaches spec name || (wild spec && rules.glob spec name)⟩

/-- Git refuses a selection with a part that is no pathspec. A file is selected when an element that
does not exclude covers it, or all elements exclude, and no element that excludes covers it. -/
def Rules.selects (rules : Rules) (specs : List Name) (name : Name) : Bool :=
  let elements := specs.filterMap rules.element
  specs.all (fun spec => (rules.element spec).isSome) &&
    (elements.any (fun element => !element.excludes && element.covers name) ||
      elements.all Element.excludes) &&
    !elements.any fun element => element.excludes && element.covers name

/-- A file of a listing with its counts of lines, or without them for a binary file. -/
structure Row where
  counts : Option (Nat × Nat)
  old : Option Name
  name : Name
  text : List Char
  spelled : Spelled old name text

def Row.front (row : Row) : List Char :=
  match row.counts with
  | none => ['-', '\t', '-', '\t']
  | some (added, deleted) =>
      Nat.toDigits 10 added ++ '\t' :: Nat.toDigits 10 deleted ++ ['\t']

def numstat (rows : List Row) : List Char :=
  rows.flatMap fun row => row.front ++ row.text ++ ['\n']

/-- The texts of a listing that a cap leaves. -/
def listed : Nat → List Row → List (List Char)
  | _, [] => []
  | room, row :: rows =>
      if row.front.length ≤ room then
        row.text.take (room - row.front.length) ::
          listed (room - (row.front.length + row.text.length + 1)) rows
      else []

theorem reaches_length {spec name : Name} (reached : reaches spec name = true) :
    spec.length ≤ name.length := by
  simp only [reaches, Bool.or_eq_true, Bool.and_eq_true, decide_eq_true_eq,
    List.isPrefixOf_iff_prefix] at reached
  rcases reached with (rfl | above) | ⟨-, above⟩
  · exact Nat.le_refl _
  · have length := above.length_le
    rw [List.length_append] at length
    omega
  · exact above.length_le

theorem reaches_self (name : Name) : reaches name name = true := by
  simp [reaches]

/-- No element that excludes covers a file. -/
def Rules.Keeps (rules : Rules) (specs : List Name) (name : Name) : Prop :=
  ∀ spec ∈ specs, ∀ element, rules.element spec = some element → element.excludes = true →
    element.covers name = false

/-- One element that does not exclude covers a file. -/
def Rules.Includes (rules : Rules) (spec name : Name) : Prop :=
  ∃ element, rules.element spec = some element ∧ element.excludes = false ∧
    element.covers name = true

def Rules.Accepts (rules : Rules) (specs : List Name) : Prop :=
  ∀ spec ∈ specs, (rules.element spec).isSome

/-- Every element excludes. -/
def Rules.OnlyExcludes (rules : Rules) (specs : List Name) : Prop :=
  ∀ spec ∈ specs, ∀ element, rules.element spec = some element → element.excludes = true

theorem Rules.selects_iff (rules : Rules) (specs : List Name) (name : Name) :
    rules.selects specs name = true ↔ rules.Accepts specs ∧ rules.Keeps specs name ∧
      (rules.OnlyExcludes specs ∨ ∃ spec ∈ specs, rules.Includes spec name) := by
  have keeps : ((specs.filterMap rules.element).any fun element =>
      element.excludes && element.covers name) = false ↔ rules.Keeps specs name := by
    rw [List.any_eq_false]
    constructor
    · intro none spec member element found excludes
      have own := none element (List.mem_filterMap.mpr ⟨spec, member, found⟩)
      rwa [excludes, Bool.true_and, Bool.not_eq_true] at own
    · intro keeps element member
      obtain ⟨spec, inside, found⟩ := List.mem_filterMap.mp member
      rw [Bool.and_eq_true, not_and, Bool.not_eq_true]
      exact keeps spec inside element found
  have only : (specs.filterMap rules.element).all Element.excludes = true ↔
      rules.OnlyExcludes specs := by
    rw [List.all_eq_true]
    constructor
    · exact fun every spec member element found =>
        every element (List.mem_filterMap.mpr ⟨spec, member, found⟩)
    · intro only element member
      obtain ⟨spec, inside, found⟩ := List.mem_filterMap.mp member
      exact only spec inside element found
  have included : ((specs.filterMap rules.element).any fun element =>
      !element.excludes && element.covers name) = true ↔
        ∃ spec ∈ specs, rules.Includes spec name := by
    rw [List.any_eq_true]
    constructor
    · rintro ⟨element, member, both⟩
      obtain ⟨spec, inside, found⟩ := List.mem_filterMap.mp member
      rw [Bool.and_eq_true, Bool.not_eq_true'] at both
      exact ⟨spec, inside, element, found, both⟩
    · rintro ⟨spec, inside, element, found, excludes, covers⟩
      refine ⟨element, List.mem_filterMap.mpr ⟨spec, inside, found⟩, ?_⟩
      rw [excludes, covers]
      rfl
  simp only [Rules.selects, Bool.and_eq_true, Bool.or_eq_true, Bool.not_eq_true', List.all_eq_true,
    keeps, included, ← only]
  rw [Rules.Accepts, and_assoc, and_comm (a := rules.Keeps specs name), or_comm]

/-- A pathspec is a pattern when it has a wildcard or begins with a colon. -/
def Pattern (spec : Name) : Prop := spec.head? = some 0x3A ∨ wild spec = true

instance (spec : Name) : Decidable (Pattern spec) := inferInstanceAs (Decidable (_ ∨ _))

/-- A pathspec that is no pattern covers what it reaches. -/
theorem Rules.element_literal (rules : Rules) {spec : Name} (filled : spec ≠ [])
    (colonless : spec.head? ≠ some 0x3A) : rules.element spec =
      some ⟨false, fun name => reaches spec name || (wild spec && rules.glob spec name)⟩ := by
  rw [Rules.element, if_neg filled, if_neg colonless]

end Pathspec
