import SynthHiresBridge.Daemon.DeepLink
import SynthHiresBridge.Data.UrlHost
import Mathlib.Data.List.Nodup

namespace Daemon

namespace DeepLink

/-- A byte that stands for itself is copied. -/
theorem urlDecodeBytes_other {byte : UInt8} (other : byte ≠ 37) (rest : List UInt8) :
    urlDecodeBytes (byte :: rest) = byte :: urlDecodeBytes rest := by
  match rest with
  | [] => rfl
  | [_] => rfl
  | first :: second :: rest => rw [urlDecodeBytes, if_neg other]

theorem urlDecodeBytes_escape {first second : UInt8} {hi lo : Nat} (high : hex first = some hi)
    (low : hex second = some lo) (rest : List UInt8) :
    urlDecodeBytes (37 :: first :: second :: rest) =
      UInt8.ofNat (16 * hi + lo) :: urlDecodeBytes rest := by
  rw [urlDecodeBytes, if_pos rfl, high, low]

/-- The bytes of an encoded byte. -/
def escaped (byte : UInt8) : List UInt8 :=
  (Percent.encodeByte byte).map fun char => UInt8.ofNat char.toNat

theorem escaped_cases (byte : UInt8) : (escaped byte = [byte] ∧ byte ≠ 37) ∨
    ∃ first second hi lo, escaped byte = [37, first, second] ∧ hex first = some hi ∧
      hex second = some lo ∧ UInt8.ofNat (16 * hi + lo) = byte := by
  have digits : ∀ digit < 16, hex (UInt8.ofNat (Percent.hexDigit digit).toNat) = some digit := by
    decide
  have known : ∀ code < 256, Percent.unreserved (UInt8.ofNat code) = true →
      UInt8.ofNat (Char.ofNat code).toNat = UInt8.ofNat code ∧ code ≠ 37 := by decide +kernel
  have small := byte.toNat_lt
  have same : UInt8.ofNat byte.toNat = byte := UInt8.ofNat_toNat
  by_cases keeps : Percent.unreserved byte = true
  · left
    obtain ⟨copied, other⟩ := known byte.toNat small (by rw [same]; exact keeps)
    refine ⟨?_, ?_⟩
    · rw [escaped, Percent.encodeByte, if_pos keeps, List.map_singleton, copied, same]
    · rintro rfl
      exact other rfl
  · right
    refine ⟨_, _, byte.toNat / 16, byte.toNat % 16, ?_, digits _ (by omega), digits _ (by omega), ?_⟩
    · rw [escaped, Percent.encodeByte, if_neg keeps]
      rfl
    · rw [Nat.div_add_mod, same]

theorem urlDecodeBytes_escaped (bytes : List UInt8) :
    urlDecodeBytes (bytes.flatMap escaped) = bytes := by
  induction bytes with
  | nil => rfl
  | cons byte rest ih =>
      rw [List.flatMap_cons]
      rcases escaped_cases byte with ⟨same, other⟩ | ⟨first, second, hi, lo, same, high, low, back⟩
      · rw [same, List.singleton_append, urlDecodeBytes_other other, ih]
      · rw [same]
        show urlDecodeBytes (37 :: first :: second :: rest.flatMap escaped) = byte :: rest
        rw [urlDecodeBytes_escape high low, back, ih]

theorem ascii_of_plain {char : Char} (plain : Percent.plain char = true) : char.toNat < 128 := by
  simp only [Percent.plain, Bool.and_eq_true, decide_eq_true_eq] at plain
  exact plain.1

/-- The decoder is an inverse of the encoder. -/
theorem urlDecode_encode (text : String) : urlDecode (String.ofList (Percent.encode text)) = text := by
  have bytes : Text.encode (String.ofList (Percent.encode text)) =
      (Text.encode text).flatMap escaped := by
    rw [Text.encode_ascii fun char member => ascii_of_plain (Percent.plain_encode member),
      Percent.encode, List.map_flatMap]
    rfl
  rw [urlDecode, bytes, urlDecodeBytes_escaped, Text.lossy_encode]

inductive Key where
  | code
  | pairingId
  | backend
  | token
  deriving DecidableEq

def Key.text : Key → String
  | .code => "code"
  | .pairingId => "pairing_id"
  | .backend => "backend"
  | .token => "token"

abbrev Param := Key × String

def Param.text (param : Param) : List Char :=
  param.1.text.toList ++ '=' :: Percent.encode param.2

/-- What stands after the scheme of a link. -/
def query (params : List Param) : List Char :=
  "pair?".toList ++ ['&'].intercalate (params.map Param.text)

/-- The link that a web page opens for its parameters. -/
def link (params : List Param) : List UInt8 :=
  Text.encode (String.ofList ("synthhires://".toList ++ query params))

/-- The value of the first parameter with a key. -/
def valueOf (params : List Param) (key : Key) : Option String :=
  (params.find? fun param => param.1 = key).map Prod.snd

theorem solid_text (param : Param) : ∀ char ∈ param.text, char.toNat < 128 ∧ char ≠ '/' ∧
    char ≠ '&' ∧ Text.isWhitespace char = false := by
  have keys : ∀ key : Key, ∀ char ∈ key.text.toList, char.toNat < 128 ∧ char ≠ '/' ∧ char ≠ '&' ∧
      Text.isWhitespace char = false := by
    intro key
    apply Text.forall_of_all
    cases key <;> decide
  have encoded : ∀ code < 128, Percent.plain (Char.ofNat code) = true → Char.ofNat code ≠ '/' ∧
      Char.ofNat code ≠ '&' ∧ Text.isWhitespace (Char.ofNat code) = false := by decide
  intro char member
  rcases List.mem_append.mp member with key | value
  · exact keys param.1 char key
  · rcases List.mem_cons.mp value with rfl | inside
    · decide
    · have plain := Percent.plain_encode inside
      have small := ascii_of_plain plain
      have same : Char.ofNat char.toNat = char := Char.ofNat_toNat char
      refine ⟨small, ?_⟩
      rw [← same] at plain ⊢
      exact encoded char.toNat small plain

theorem splitOn_query (first : Param) (rest : List Param) :
    (query (first :: rest)).splitOn '&' =
      ("pair?".toList ++ first.text) :: rest.map Param.text := by
  have joined : query (first :: rest) =
      ['&'].intercalate (("pair?".toList ++ first.text) :: rest.map Param.text) := by
    cases rest with
    | nil => simp [query, List.intercalate]
    | cons second rest => simp [query, List.intercalate]
  rw [joined, List.splitOn_intercalate]
  · intro piece member
    rcases List.mem_cons.mp member with rfl | later
    · intro inside
      rcases List.mem_append.mp inside with front | own
      · exact absurd front (by decide)
      · exact (solid_text first '&' own).2.2.1 rfl
    · obtain ⟨param, -, rfl⟩ := List.mem_map.mp later
      exact fun own => (solid_text param '&' own).2.2.1 rfl
  · simp

theorem mem_intercalate {separator char : Char} {pieces : List (List Char)}
    (member : char ∈ [separator].intercalate pieces) :
    char = separator ∨ ∃ piece ∈ pieces, char ∈ piece := by
  induction pieces with
  | nil => cases member
  | cons first rest ih =>
      cases rest with
      | nil => exact .inr ⟨first, List.mem_cons_self, by simpa [List.intercalate] using member⟩
      | cons second rest =>
          have split : [separator].intercalate (first :: second :: rest) =
              first ++ separator :: [separator].intercalate (second :: rest) := by
            simp [List.intercalate]
          rw [split] at member
          rcases List.mem_append.mp member with own | later
          · exact .inr ⟨first, List.mem_cons_self, own⟩
          · rcases List.mem_cons.mp later with rfl | inside
            · exact .inl rfl
            · exact (ih inside).imp_right fun ⟨piece, known, own⟩ =>
                ⟨piece, List.mem_cons_of_mem _ known, own⟩

theorem solid_query (params : List Param) : ∀ char ∈ query params, char.toNat < 128 ∧ char ≠ '/' ∧
    Text.isWhitespace char = false := by
  intro char member
  rcases List.mem_append.mp member with front | joined
  · have page : ∀ char ∈ "pair?".toList, char.toNat < 128 ∧ char ≠ '/' ∧
        Text.isWhitespace char = false := Text.forall_of_all (by decide)
    exact page char front
  · rcases mem_intercalate joined with rfl | ⟨piece, known, own⟩
    · decide
    · obtain ⟨param, -, rfl⟩ := List.mem_map.mp known
      obtain ⟨small, slash, -, solid⟩ := solid_text param char own
      exact ⟨small, slash, solid⟩

/-- The listener sees the link, or the front of it that its buffer holds. -/
theorem handleLink_link (backendUrl : String) (params : List Param) :
    handleLink backendUrl (link params) =
      pairOutcome backendUrl (parseParam ((query params).take 8179)) := by
  have ascii : ∀ char ∈ "synthhires://".toList ++ query params, char.toNat < 128 := by
    intro char member
    rcases List.mem_append.mp member with front | inside
    · have scheme : ∀ char ∈ "synthhires://".toList, char.toNat < 128 :=
        Text.forall_of_all (by decide)
      exact scheme char front
    · exact (solid_query params char inside).1
  have received : (link params).take 8192 =
      Text.encode (String.ofList ("synthhires://".toList ++ (query params).take 8179)) := by
    have split : ("synthhires://".toList ++ query params).take 8192 =
        "synthhires://".toList ++ (query params).take 8179 := by
      have count : 8192 = "synthhires://".toList.length + 8179 := by decide
      rw [count, List.take_length_add_append]
    rw [← split, link, Text.encode_ascii ascii, ← List.map_take, Text.encode_ascii]
    exact fun char member => ascii char (List.mem_of_mem_take member)
  have solid : ∀ char ∈ (query params).take 8179, char ≠ '/' ∧ Text.isWhitespace char = false :=
    fun char member => (solid_query params char (List.mem_of_mem_take member)).2
  have slashes : ((query params).take 8179).rdropWhile (· = '/') = (query params).take 8179 := by
    rw [List.rdropWhile_eq_self_iff]
    intro nonempty
    simpa using (solid _ (List.getLast_mem nonempty)).1
  have page : ((query params).take 8179) ≠ "ping-ui".toList := by
    intro same
    have second : ((query params).take 8179)[1]? = some 'a' := by
      rw [List.getElem?_take_of_lt (by decide)]
      rfl
    rw [same] at second
    exact absurd second (by decide)
  have stripped := Text.stripPrefix_append "synthhires://".toList ((query params).take 8179)
  have trimmed := Text.trim_of_solid fun char member => (solid char member).2
  simp only [handleLink, received, Text.lossy_encode, stripped, slashes, trimmed,
    String.toList_ofList, if_neg page]

theorem paramOf_text (key : Key) (param : Param) : paramOf key.text param.text =
    if param.1 = key then some param.2 else none := by
  have absent : '=' ∉ param.1.text.toList := by
    cases param.1 <;> decide
  have trimmed : Text.trim (String.ofList param.1.text.toList) = param.1.text := by
    cases param.1 <;> decide
  have solid : ∀ char ∈ Percent.encode param.2, Text.isWhitespace char = false := by
    intro char member
    exact (solid_text param char (List.mem_append_right _ (List.mem_cons_of_mem _ member))).2.2.2
  have keys : param.1.text = key.text ↔ param.1 = key := by
    cases param.1 <;> cases key <;> decide
  rw [paramOf, Param.text, Text.splitOnce_single absent]
  simp only [trimmed, keys, Text.trim_of_solid solid, urlDecode_encode]

/-- The first part is cut at a key that no parameter has. -/
theorem paramOf_front {key : Key} {param : Param} {part : List Char}
    (short : part <+: "pair?".toList ++ param.text) : paramOf key.text part = none := by
  have absent : '=' ∉ "pair?".toList ++ param.1.text.toList := by
    cases param.1 <;> decide
  have other : Text.trim (String.ofList ("pair?".toList ++ param.1.text.toList)) ≠ key.text := by
    cases param.1 <;> cases key <;> decide
  rw [Param.text, ← List.append_assoc] at short
  rcases Text.splitOnce_of_prefix absent short with none | ⟨rest, cut⟩
  · rw [paramOf, none]
  · rw [paramOf, cut]
    exact if_neg other

theorem paramOf_other {key : Key} {param : Param} {part : List Char} (other : param.1 ≠ key)
    (short : part <+: param.text) : paramOf key.text part = none := by
  have absent : '=' ∉ param.1.text.toList := by
    cases param.1 <;> decide
  have apart : Text.trim (String.ofList param.1.text.toList) ≠ key.text := by
    revert other
    cases param.1 <;> cases key <;> decide
  rcases Text.splitOnce_of_prefix absent short with none | ⟨rest, cut⟩
  · rw [paramOf, none]
  · rw [paramOf, cut]
    exact if_neg apart

/-- The first parameter of a link is never found, and a later one is found by its key. -/
theorem parseParam_query (key : Key) (first : Param) (rest : List Param) :
    parseParam (query (first :: rest)) key.text = valueOf rest key := by
  rw [parseParam, splitOn_query, List.findSome?_cons, paramOf_front List.prefix_rfl]
  induction rest with
  | nil => rfl
  | cons param rest ih =>
      rw [List.map_cons, List.findSome?_cons, paramOf_text, valueOf, List.find?_cons]
      by_cases same : param.1 = key
      · simp [same]
      · simpa [same, valueOf] using ih

/-- A key of no later parameter is not found in the front of a link either. -/
theorem parseParam_cut {key : Key} {first : Param} {rest : List Param} {cut : List Char}
    (short : cut <+: query (first :: rest)) (absent : ∀ param ∈ rest, param.1 ≠ key) :
    parseParam cut key.text = none := by
  obtain ⟨front, last, large, after, pieces, whole, smaller⟩ := Text.splitOn_of_prefix short
  rw [splitOn_query] at whole
  have known : ∀ piece ∈ front ++ large :: after, ∀ part, part <+: piece →
      paramOf key.text part = none := by
    rw [← whole]
    intro piece member part smaller
    rcases List.mem_cons.mp member with rfl | later
    · exact paramOf_front smaller
    · obtain ⟨param, inside, rfl⟩ := List.mem_map.mp later
      exact paramOf_other (absent param inside) smaller
  rw [parseParam, pieces, List.findSome?_eq_none_iff]
  intro piece member
  rcases List.mem_append.mp member with inside | final
  · exact known piece (List.mem_append_left _ inside) piece List.prefix_rfl
  · rw [List.mem_singleton.mp final]
    exact known large (by simp) last smaller

/-- A link of a pairing is read as its three values, and a link with a token in the place of a code
is told to be a legacy one. -/
structure Faithful (backendUrl : String) (params : List Param) : Prop where
  pairs : ∀ code pairingId backend,
    params.Perm [(.code, code), (.pairingId, pairingId), (.backend, backend)] →
      handleLink backendUrl (link params) = .pair code (some pairingId) backend
  legacy : .token ∈ params.map Prod.fst → .code ∉ params.map Prod.fst →
    handleLink backendUrl (link params) = .legacyTokenLink

/-- The first parameter is not needed: it is the backend that the daemon has anyway, or it is not
the token. -/
structure FirstUnneeded (backendUrl : String) (first : Param) (rest : List Param) : Prop where
  pairs : ∀ code pairingId backend,
    (first :: rest).Perm [(.code, code), (.pairingId, pairingId), (.backend, backend)] →
      first = (.backend, backendUrl)
  legacy : .token ∈ (first :: rest).map Prod.fst → .code ∉ (first :: rest).map Prod.fst →
    .token ∈ rest.map Prod.fst

theorem valueOf_eq_none {params : List Param} {key : Key} :
    valueOf params key = none ↔ key ∉ params.map Prod.fst := by
  rw [valueOf, Option.map_eq_none_iff, List.find?_eq_none, List.mem_map]
  simp only [decide_eq_true_eq, not_exists, not_and]

theorem valueOf_of_mem {params : List Param} {key : Key} {value : String}
    (distinct : (params.map Prod.fst).Nodup) (member : (key, value) ∈ params) :
    valueOf params key = some value := by
  cases found : valueOf params key with
  | none => exact absurd (List.mem_map_of_mem member) (valueOf_eq_none.mp found)
  | some other =>
      rw [valueOf, Option.map_eq_some_iff] at found
      obtain ⟨param, first, rfl⟩ := found
      have own : param.1 = key := by simpa using List.find?_some first
      have same := List.inj_on_of_nodup_map distinct (List.mem_of_find?_eq_some first) member own
      rw [same]

theorem take_query {params : List Param} (fits : (link params).length ≤ 8192) :
    (query params).take 8179 = query params := by
  have ascii : ∀ char ∈ "synthhires://".toList ++ query params, char.toNat < 128 := by
    intro char member
    rcases List.mem_append.mp member with front | inside
    · have scheme : ∀ char ∈ "synthhires://".toList, char.toNat < 128 :=
        Text.forall_of_all (by decide)
      exact scheme char front
    · exact (solid_query params char inside).1
  have scheme : "synthhires://".toList.length = 13 := by decide
  rw [link, Text.encode_ascii ascii, List.length_map, List.length_append, scheme] at fits
  exact List.take_of_length_le (by omega)

theorem cut_query (params : List Param) : (query params).take 8179 <+: query params :=
  List.take_prefix 8179 (query params)

/-- The keys of a pairing link are distinct, so that its first one is not among the others. -/
theorem keys_of_perm {first : Param} {rest : List Param} {code pairingId backend : String}
    (same : (first :: rest).Perm [(.code, code), (.pairingId, pairingId), (.backend, backend)]) :
    ((first :: rest).map Prod.fst).Nodup ∧ ∀ param ∈ rest, param.1 ≠ first.1 := by
  have distinct : ((first :: rest).map Prod.fst).Nodup := by
    rw [(same.map Prod.fst).nodup_iff]
    show [Key.code, .pairingId, .backend].Nodup
    decide
  refine ⟨distinct, fun param member own => ?_⟩
  rw [List.map_cons, List.nodup_cons] at distinct
  exact distinct.1 (List.mem_map.mpr ⟨param, member, own⟩)

theorem FirstUnneeded.of_faithful {backendUrl : String} {first : Param} {rest : List Param}
    (faithful : Faithful backendUrl (first :: rest)) : FirstUnneeded backendUrl first rest := by
  refine ⟨?_, ?_⟩
  · intro code pairingId backend same
    obtain ⟨-, others⟩ := keys_of_perm same
    have read := faithful.pairs code pairingId backend same
    have missing := parseParam_cut (cut_query (first :: rest)) others
    have member := same.subset List.mem_cons_self
    rw [handleLink_link] at read
    simp only [List.mem_cons, List.not_mem_nil, or_false] at member
    rcases member with rfl | rfl | rfl
    · -- Without the code there is no pairing.
      have code : parseParam ((query _).take 8179) "code" = none := missing
      rw [pairOutcome, code] at read
      split at read <;> cases read
    · have id : parseParam ((query _).take 8179) "pairing_id" = none := missing
      rw [pairOutcome, id] at read
      split at read
      · cases read
      · split at read <;> cases read
    · have none : parseParam ((query _).take 8179) "backend" = none := missing
      rw [pairOutcome, none] at read
      split at read
      · cases read
      · split at read
        · cases read
        · injection read with _ _ default
          rw [← default]
          rfl
  · intro token code
    by_contra absent
    have answered := faithful.legacy token code
    have missing := @parseParam_cut .token first rest _ (cut_query (first :: rest))
      (fun param member own => absent (List.mem_map.mpr ⟨param, member, own⟩))
    have none : parseParam ((query _).take 8179) "token" = none := missing
    rw [handleLink_link, pairOutcome, none] at answered
    split at answered
    · rename_i both
      cases both.1
    · split at answered <;> cases answered

theorem FirstUnneeded.faithful {backendUrl : String} {first : Param} {rest : List Param}
    (unneeded : FirstUnneeded backendUrl first rest)
    (fits : (link (first :: rest)).length ≤ 8192) : Faithful backendUrl (first :: rest) := by
  have param : ∀ key : Key, parseParam ((query (first :: rest)).take 8179) key.text =
      valueOf rest key := by
    intro key
    rw [take_query fits, parseParam_query]
  refine ⟨?_, ?_⟩
  · intro code pairingId backend same
    obtain ⟨distinct, -⟩ := keys_of_perm same
    obtain rfl := unneeded.pairs code pairingId backend same
    rw [List.map_cons, List.nodup_cons] at distinct
    have inside : ∀ key value, (key, value) ∈
        [(Key.code, code), (.pairingId, pairingId), (.backend, backend)] → key ≠ .backend →
          valueOf rest key = some value := by
      intro key value member other
      refine valueOf_of_mem distinct.2 ?_
      rcases List.mem_cons.mp (same.symm.subset member) with own | later
      · exact absurd (congrArg Prod.fst own) other
      · exact later
    have default : backend = backendUrl := by
      have member : (Key.backend, backend) ∈ (Key.backend, backendUrl) :: rest :=
        same.symm.subset (by simp)
      rcases List.mem_cons.mp member with own | later
      · exact congrArg Prod.snd own
      · exact absurd (List.mem_map_of_mem later) distinct.1
    have code' : parseParam ((query _).take 8179) "code" = some code :=
      (param .code).trans (inside .code code (by simp) (by decide))
    have id : parseParam ((query _).take 8179) "pairing_id" = some pairingId :=
      (param .pairingId).trans (inside .pairingId pairingId (by simp) (by decide))
    have none : parseParam ((query ((Key.backend, backendUrl) :: rest)).take 8179) "backend" = none :=
      (param .backend).trans (valueOf_eq_none.mpr distinct.1)
    rw [handleLink_link, pairOutcome, code', id, none, default]
    simp
  · intro token code
    have given : parseParam ((query _).take 8179) "token" = valueOf rest .token := param .token
    have missing : parseParam ((query _).take 8179) "code" = none :=
      (param .code).trans (valueOf_eq_none.mpr fun member => code (List.mem_cons_of_mem _ member))
    rw [handleLink_link, pairOutcome, given, missing, if_pos]
    refine ⟨?_, rfl⟩
    rw [Option.isSome_iff_ne_none]
    intro absent
    exact valueOf_eq_none.mp absent (unneeded.legacy token code)

/-- A link that fits into the buffer is read back exactly when its first parameter is not needed,
and a longer one is not read back otherwise either. -/
theorem link_read_back_iff (backendUrl : String) (first : Param) (rest : List Param) :
    ((link (first :: rest)).length ≤ 8192 →
        (Faithful backendUrl (first :: rest) ↔ FirstUnneeded backendUrl first rest)) ∧
      (Faithful backendUrl (first :: rest) → FirstUnneeded backendUrl first rest) :=
  ⟨fun fits => ⟨.of_faithful, fun unneeded => unneeded.faithful fits⟩, .of_faithful⟩

theorem link_backend_first_read :
    Faithful "https://b" [(.backend, "https://b"), (.code, "A&1"), (.pairingId, "p")] := by
  refine ((link_read_back_iff "https://b" (.backend, "https://b")
    [(.code, "A&1"), (.pairingId, "p")]).1 (by decide)).mpr ⟨fun _ _ _ _ => rfl, ?_⟩
  intro token
  exact absurd token (by decide)

/-- A link that begins with its code is answered as if it had none, and so is one with a token
alone. -/
theorem link_code_first_lost :
    ¬ Faithful "https://synthhires.com"
        [(.code, "A1"), (.pairingId, "p"), (.backend, "https://b")] ∧
      ¬ Faithful "https://synthhires.com" [(.token, "A1")] := by
  have code : handleLink "https://synthhires.com" (link [(.code, "A1"), (.pairingId, "p"),
      (.backend, "https://b")]) = .nack := by decide
  have token : handleLink "https://synthhires.com" (link [(.token, "A1")]) = .nack := by
    decide
  refine ⟨fun faithful => ?_, fun faithful => ?_⟩
  · have read := faithful.pairs "A1" "p" "https://b" (.refl _)
    rw [code] at read
    cases read
  · have read := faithful.legacy (by decide) (by decide)
    rw [token] at read
    cases read

end DeepLink

end Daemon
