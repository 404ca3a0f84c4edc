import Mathlib.Data.List.Forall2
import SynthHiresBridge.Daemon.AstGrep
import SynthHiresBridge.Data.CharBoundary

namespace Daemon.AstOps

open Posix

/-- A text is shown whole, or its cut is not inside a character. -/
def Cuttable (text : String) : Prop :=
  text.utf8ByteSize ≤ maxMatchText ∨
    Text.isCharBoundary (Text.encode text) maxMatchText = true

instance (text : String) : Decidable (Cuttable text) := inferInstanceAs (Decidable (_ ∨ _))

/-- A short text is shown whole, and of a longer one a front with an ellipsis. -/
def Shows (shown text : String) : Prop :=
  if text.utf8ByteSize ≤ maxMatchText then shown = text
  else ∃ front rest, text = front ++ rest ∧ front.utf8ByteSize ≤ maxMatchText ∧ shown = front ++ "…"

theorem matchText_of_cuttable {text : String} (cuttable : Cuttable text) :
    ∃ shown, matchText text = some shown ∧ Shows shown text := by
  unfold matchText Shows
  by_cases short : text.utf8ByteSize ≤ maxMatchText
  · simp only [if_neg (Nat.not_lt.mpr short), if_pos short]
    exact ⟨text, rfl, rfl⟩
  · have boundary := cuttable.resolve_left short
    have inside : maxMatchText ≤ (Text.encode text).length := by
      rw [Text.length_encode]
      omega
    obtain ⟨front, rest, same, bytes⟩ := Text.cut_of_boundary inside boundary
    have size : front.utf8ByteSize ≤ maxMatchText := by
      rw [← Text.length_encode, bytes]
      exact List.length_take_le ..
    simp only [if_pos (Nat.lt_of_not_le short), if_neg short]
    rw [truncate, if_neg (Nat.not_lt.mpr (Nat.le_of_not_le short)), if_pos boundary, ← bytes,
      Text.strict_encode]
    exact ⟨front ++ "…", rfl, front, rest, same, size, rfl⟩

theorem matchText_of_not_cuttable {text : String} (inside : ¬ Cuttable text) :
    matchText text = none := by
  obtain ⟨long, within⟩ := not_or.mp inside
  rw [matchText, if_pos (Nat.lt_of_not_le long), truncate,
    if_neg (Nat.not_lt.mpr (Nat.le_of_not_le long)), if_neg within, Option.map_none]

/-- A character across the cut stops a report. -/
theorem not_cuttable_across {front rest : List Char} {char : Char}
    (ascii : ∀ char ∈ front, char.toNat < 128) (before : front.length < maxMatchText)
    (across : maxMatchText < front.length + char.utf8Size) :
    ¬ Cuttable (String.ofList (front ++ char :: rest)) := by
  have size : (Text.encode (String.ofList front)).length = front.length := by
    rw [Text.encode_ascii ascii, List.length_map]
  have bytes : Text.encode (String.ofList (front ++ char :: rest)) =
      Text.encode (String.ofList front) ++ String.utf8EncodeChar char ++
        Text.encode (String.ofList rest) := by
    rw [Text.encode_append, Text.encode_cons, List.append_assoc]
  rw [Cuttable, ← Text.length_encode, bytes, not_or]
  constructor
  · rw [List.length_append, List.length_append, size, String.length_utf8EncodeChar]
    omega
  · rw [Text.not_isCharBoundary]
    · exact Bool.false_ne_true
    · rwa [size]
    · rwa [size, String.length_utf8EncodeChar]

/-- A report is about a match and shows its text. -/
def Reports (offer : Option String × Found) (reported : AstMatch) : Prop :=
  ∃ shown, Shows shown offer.2.text ∧ reported = astMatch offer.1 offer.2 shown

/-- The matches that have room are reported. -/
theorem report_of_cuttable (cap : Nat) (file : Option String) {founds : List Found} (out : List AstMatch)
    (cuttable : ∀ found ∈ founds.take (cap - out.length), Cuttable found.text) :
    ∃ reported, report cap file founds out =
        some (out ++ reported, decide (cap - out.length < founds.length)) ∧
      List.Forall₂ Reports ((founds.take (cap - out.length)).map (file, ·)) reported := by
  induction founds generalizing out with
  | nil =>
      refine ⟨[], ?_, ?_⟩
      · rw [report, List.append_nil]
        rfl
      · rw [List.take_nil]
        exact .nil
  | cons found rest ih =>
      rw [report]
      split_ifs with full
      · have none : cap - out.length = 0 := Nat.sub_eq_zero_of_le full
        rw [none]
        exact ⟨[], by simp, .nil⟩
      · obtain ⟨left, room⟩ : ∃ left, cap - out.length = left + 1 :=
          ⟨cap - out.length - 1, by omega⟩
        rw [room, List.take_succ_cons] at cuttable ⊢
        obtain ⟨here, later⟩ := List.forall_mem_cons.mp cuttable
        obtain ⟨shown, same, shows⟩ := matchText_of_cuttable here
        have next : cap - (out ++ [astMatch file found shown]).length = left := by
          rw [List.length_append, List.length_singleton]
          omega
        obtain ⟨reported, done, all⟩ := ih (out ++ [astMatch file found shown])
          (by rw [next]; exact later)
        rw [next] at done all
        refine ⟨astMatch file found shown :: reported, ?_, ?_⟩
        · rw [same, Option.bind_some, done, List.append_assoc, List.singleton_append,
            List.length_cons]
          simp
        · exact .cons ⟨shown, shows, rfl⟩ all

/-- A match that is cut inside a character ends the daemon. -/
theorem report_of_not_cuttable (cap : Nat) {founds : List Found} {file : Option String}
    (out : List AstMatch) {found : Found}
    (member : found ∈ founds.take (cap - out.length)) (inside : ¬ Cuttable found.text) :
    report cap file founds out = none := by
  induction founds generalizing out with
  | nil =>
      rw [List.take_nil] at member
      cases member
  | cons first rest ih =>
      rw [report]
      split_ifs with full
      · rw [Nat.sub_eq_zero_of_le full] at member
        cases member
      · by_cases here : Cuttable first.text
        · obtain ⟨shown, same, -⟩ := matchText_of_cuttable here
          rw [same, Option.bind_some]
          apply ih (out ++ [astMatch file first shown])
          obtain ⟨left, room⟩ : ∃ left, cap - out.length = left + 1 :=
            ⟨cap - out.length - 1, by omega⟩
          rw [room, List.take_succ_cons] at member
          have next : cap - (out ++ [astMatch file first shown]).length = left := by
            rw [List.length_append, List.length_singleton]
            omega
          rw [next]
          rcases List.mem_cons.mp member with rfl | later
          · exact absurd here inside
          · exact later
        · rw [matchText_of_not_cuttable here, Option.bind_none]

variable (host : Host) (library : AstLibrary) (disk : Disk) (gate : CapabilityGate)

section Search

variable (explicit : Option SupportLang) (pattern : String)

/-- What is found in one file of a walk, or the error that ends the search there. -/
def look (file : PathBuf) : Except DaemonError (List Found) :=
  match ensureFile gate "desktop.fs.read" file with
  | .error error => .error error
  | .ok _ => match explicit.or (file.extension.bind langFromExtension) with
    | none => .ok []
    | some lang => match disk.readToString file with
      | .error _ => .ok []
      | .ok source => (compilePattern host library pattern lang).map fun findAll => findAll source

/-- The matches of all files in their order, up to an error. -/
def offered : List PathBuf → List (Option String × Found)
  | [] => []
  | file :: rest => match look host library disk gate explicit pattern file with
      | .error _ => []
      | .ok founds => founds.map (some file.display, ·) ++ offered rest

/-- The languages of the files so far. -/
def seenWith (file : PathBuf) (seen : List SupportLang) : List SupportLang :=
  match explicit.or (file.extension.bind langFromExtension) with
  | none => seen
  | some lang => if seen.contains lang then seen else seen ++ [lang]

variable {host library disk gate explicit pattern} {cap : Nat}

/-- Every file of a search is looked into and what it has is reported. -/
theorem grepFiles_cons (file : PathBuf) (rest : List PathBuf) (search : Search) :
    grepFiles host library disk gate explicit pattern cap (file :: rest) search =
      if cap ≤ search.found.length then some (.ok { search with truncated := true })
      else match look host library disk gate explicit pattern file with
        | .error error => some (.error error)
        | .ok founds =>
            (report cap (some file.display) founds search.found).bind fun reported =>
              grepFiles host library disk gate explicit pattern cap rest
                ⟨reported.1, search.truncated || reported.2,
                  seenWith explicit file search.langsSeen⟩ := by
  rw [grepFiles, look, seenWith]
  split_ifs with full
  · rfl
  · cases ensureFile gate "desktop.fs.read" file with
    | error error => rfl
    | ok granted =>
        cases explicit.or (file.extension.bind langFromExtension) with
        | none => simp [report]
        | some lang =>
            cases disk.readToString file with
            | error error => simp [report]
            | ok source => cases compiled : compilePattern host library pattern lang <;>
              simp [compiled, Except.map]

theorem offered_cons {file : PathBuf} {founds : List Found}
    (found : look host library disk gate explicit pattern file = .ok founds)
    (rest : List PathBuf) : offered host library disk gate explicit pattern (file :: rest) =
      founds.map (some file.display, ·) ++
        offered host library disk gate explicit pattern rest := by
  rw [offered, found]

variable (host library disk gate explicit pattern) in
/-- The files have more matches than there is room for, or the room is filled before the last of
them is opened. -/
def Overfull (room : Nat) (files : List PathBuf) : Prop :=
  files ≠ [] ∧ (room ≤ (offered host library disk gate explicit pattern files.dropLast).length ∨
    room < (offered host library disk gate explicit pattern files).length)

theorem overfull_cons {file : PathBuf} {founds : List Found} {room : Nat} {rest : List PathBuf}
    (found : look host library disk gate explicit pattern file = .ok founds) (some : 0 < room) :
    Overfull host library disk gate explicit pattern room (file :: rest) ↔
      room < founds.length ∨
        Overfull host library disk gate explicit pattern (room - founds.length) rest := by
  rw [Overfull, Overfull, offered_cons found, List.length_append, List.length_map]
  cases rest with
  | nil =>
      rw [List.dropLast_singleton, offered]
      simp only [List.length_nil]
      refine ⟨fun beyond => .inl (beyond.2.resolve_left (by omega)), fun beyond => ?_⟩
      exact ⟨List.cons_ne_nil _ _, .inr (beyond.resolve_right fun none => none.1 rfl)⟩
  | cons next rest =>
      rw [List.dropLast_cons_of_ne_nil (List.cons_ne_nil next rest), offered_cons found,
        List.length_append, List.length_map, and_iff_right (List.cons_ne_nil _ _),
        and_iff_right (List.cons_ne_nil _ _)]
      omega

/-- A search that cuts no character ends, and it reports what has room. -/
theorem grepFiles_of_cuttable (cap : Nat) {files : List PathBuf} (search : Search)
    (cuttable : ∀ offer ∈ (offered host library disk gate explicit pattern files).take
      (cap - search.found.length), Cuttable offer.2.text) :
    ∃ answer, grepFiles host library disk gate explicit pattern cap files search = some answer ∧
      ∀ after, answer = .ok after → ∃ reported, after.found = search.found ++ reported ∧
        List.Forall₂ Reports ((offered host library disk gate explicit pattern files).take
          (cap - search.found.length)) reported ∧
        (after.truncated = true ↔ search.truncated = true ∨ Overfull host library disk gate
          explicit pattern (cap - search.found.length) files) := by
  induction files generalizing search with
  | nil =>
      refine ⟨.ok search, rfl, fun after same => ?_⟩
      obtain rfl := Except.ok.inj same
      refine ⟨[], (List.append_nil _).symm, by rw [offered, List.take_nil]; exact .nil, ?_⟩
      exact (or_iff_left fun beyond => beyond.1 rfl).symm
  | cons file rest ih =>
      rw [grepFiles_cons]
      split_ifs with full
      · rw [Nat.sub_eq_zero_of_le full]
        refine ⟨_, rfl, fun after same => ?_⟩
        obtain rfl := Except.ok.inj same
        refine ⟨[], (List.append_nil _).symm, .nil, iff_of_true rfl (.inr ?_)⟩
        exact ⟨List.cons_ne_nil file rest, .inl (Nat.zero_le _)⟩
      · cases found : look host library disk gate explicit pattern file with
        | error error => exact ⟨.error error, rfl, nofun⟩
        | ok founds =>
            rw [offered_cons found, List.take_append, List.length_map, ← List.map_take]
              at cuttable
            rw [offered_cons found, List.take_append, List.length_map, ← List.map_take,
              overfull_cons found (by omega)]
            dsimp only
            have own : ∀ found ∈ founds.take (cap - search.found.length), Cuttable found.text :=
              fun found member => cuttable _ (List.mem_append_left _
                (List.mem_map_of_mem (f := fun found => (some file.display, found)) member))
            obtain ⟨reported, done, all⟩ := report_of_cuttable cap (some file.display) search.found own
            have left : cap - (search.found ++ reported).length =
                cap - search.found.length - founds.length := by
              have count := all.length_eq
              rw [List.length_map, List.length_take] at count
              rw [List.length_append]
              omega
            rw [done, Option.bind_some]
            obtain ⟨answer, ended, ok⟩ := ih
              ⟨search.found ++ reported, search.truncated ||
                decide (cap - search.found.length < founds.length),
                seenWith explicit file search.langsSeen⟩
              (fun offer member => cuttable offer
                (List.mem_append_right _ (by rw [left] at member; exact member)))
            refine ⟨answer, ended, fun after same => ?_⟩
            obtain ⟨more, held, others, flag⟩ := ok after same
            rw [left] at others flag
            refine ⟨reported ++ more, by rw [held, List.append_assoc],
              List.rel_append all others, flag.trans ?_⟩
            rw [Bool.or_eq_true, decide_eq_true_iff, or_assoc]

theorem grepFiles_of_not_cuttable {files : List PathBuf} {search : Search}
    {offer : Option String × Found} (inside : ¬ Cuttable offer.2.text)
    (member : offer ∈ (offered host library disk gate explicit pattern files).take
      (cap - search.found.length)) :
    grepFiles host library disk gate explicit pattern cap files search = none := by
  induction files generalizing search with
  | nil =>
      rw [offered, List.take_nil] at member
      cases member
  | cons file rest ih =>
      rw [grepFiles_cons]
      split_ifs with full
      · rw [Nat.sub_eq_zero_of_le full] at member
        cases member
      · cases found : look host library disk gate explicit pattern file with
        | error error =>
            rw [offered, found, List.take_nil] at member
            cases member
        | ok founds =>
            rw [offered_cons found, List.take_append, List.length_map, ← List.map_take,
              List.mem_append] at member
            dsimp only
            by_cases own : ∀ found ∈ founds.take (cap - search.found.length), Cuttable found.text
            · obtain ⟨reported, done, all⟩ := report_of_cuttable cap (some file.display) search.found own
              rw [done, Option.bind_some]
              apply ih
              have count := all.length_eq
              rw [List.length_map, List.length_take] at count
              have left : cap - (search.found ++ reported).length =
                  cap - search.found.length - founds.length := by
                rw [List.length_append]
                omega
              rw [left]
              refine member.resolve_left fun here => ?_
              obtain ⟨found, held, rfl⟩ := List.mem_map.mp here
              exact inside (own found held)
            · push Not at own
              obtain ⟨found, held, cut⟩ := own
              rw [report_of_not_cuttable cap search.found held cut, Option.bind_none]

end Search

section Request

variable (req : AstGrepRequest)

/-- What is found in the file of a request, up to its limit. -/
def examinedFile : List (Option String × Found) :=
  match resolveLang host library req.language req.path with
  | .error _ => []
  | .ok lang => match compilePattern host library req.pattern lang with
    | .error _ => []
    | .ok findAll => match disk.readToString (.ofText req.path) with
      | .error _ => []
      | .ok source => ((findAll source).take (capOf req)).map (none, ·)

/-- The matches that a request goes through, up to its limit or an error. -/
def examined : List (Option String × Found) :=
  match ensurePath gate "desktop.fs.read" req.path with
  | .error _ => []
  | .ok _ => match disk.fs.metadata (.ofText req.path) with
    | .error _ => []
    | .ok .dir =>
        let explicit := explicitLang library req.language
        match collectFiles disk explicit (maxWalkDepth + 1) (.ofText req.path) [] with
        | .error _ => []
        | .ok files => (offered host library disk gate explicit req.pattern (sortFiles files)).take
            (capOf req)
    | .ok _ => examinedFile host library disk req

variable {host library disk gate req}

/-- A request that returns shows a front of every match it reports. -/
def Safe (offers : List (Option String × Found))
    (outcome : Option (Except DaemonError AstGrepResult)) : Prop :=
  ∃ answer, outcome = some answer ∧
    ∀ result, answer = .ok result → List.Forall₂ Reports offers result.found

/-- A search of a directory is the search of its files. -/
theorem grepDir_collected (host : Host) (gate : CapabilityGate) {files : List PathBuf}
    (collected : collectFiles disk (explicitLang library req.language) (maxWalkDepth + 1)
      (.ofText req.path) [] = .ok files) : ∃ language : Search → String,
    grepDir host library disk gate req =
      (grepFiles host library disk gate (explicitLang library req.language) req.pattern (capOf req)
        (sortFiles files) ⟨[], false, []⟩).map fun searched => searched.map fun search =>
          ⟨language search, search.found, search.truncated⟩ := by
  rw [grepDir, collected]
  exact ⟨_, rfl⟩

theorem grepDir_safe_iff {files : List PathBuf}
    (collected : collectFiles disk (explicitLang library req.language) (maxWalkDepth + 1)
      (.ofText req.path) [] = .ok files) :
    let offers := (offered host library disk gate (explicitLang library req.language) req.pattern
      (sortFiles files)).take (capOf req)
    Safe offers (grepDir host library disk gate req) ↔
      ∀ offer ∈ offers, Cuttable offer.2.text := by
  intro offers
  obtain ⟨language, same⟩ := grepDir_collected host gate collected
  rw [same]
  constructor
  · rintro ⟨answer, returned, -⟩ offer member
    by_contra inside
    rw [grepFiles_of_not_cuttable inside member] at returned
    cases returned
  · intro cuttable
    obtain ⟨searched, done, ok⟩ := grepFiles_of_cuttable (capOf req) ⟨[], false, []⟩ cuttable
    rw [done, Option.map_some]
    refine ⟨_, rfl, fun result same => ?_⟩
    cases searched with
    | error error => cases same
    | ok after =>
        obtain ⟨reported, held, all, -⟩ := ok after rfl
        obtain rfl := Except.ok.inj same
        change List.Forall₂ Reports offers after.found
        rw [held]
        exact all

theorem report_safe_iff {lang : String} {founds : List Found} :
    Safe ((founds.take (capOf req)).map (none, ·))
        ((report (capOf req) none founds []).map fun reported =>
          .ok ⟨lang, reported.1, reported.2⟩) ↔
      ∀ offer ∈ (founds.take (capOf req)).map fun found => ((none : Option String), found),
        Cuttable offer.2.text := by
  rw [List.forall_mem_map]
  constructor
  · rintro ⟨answer, returned, -⟩ found member
    by_contra inside
    rw [report_of_not_cuttable (capOf req) [] member inside] at returned
    cases returned
  · intro cuttable
    obtain ⟨reported, done, all⟩ := report_of_cuttable (capOf req) none [] cuttable
    rw [done, Option.map_some]
    refine ⟨_, rfl, fun result same => ?_⟩
    obtain rfl := Except.ok.inj same
    exact all

/-- A request that is refused goes through nothing. -/
theorem safe_error_iff (error : DaemonError) : Safe [] (some (.error error)) ↔
    ∀ offer ∈ ([] : List (Option String × Found)), Cuttable offer.2.text :=
  iff_of_true ⟨_, rfl, nofun⟩ nofun

theorem grepFile_safe_iff : Safe (examinedFile host library disk req)
    (grepFile host library disk req) ↔
      ∀ offer ∈ examinedFile host library disk req, Cuttable offer.2.text := by
  rw [examinedFile, grepFile]
  cases resolveLang host library req.language req.path with
  | error error => exact safe_error_iff error
  | ok lang =>
      dsimp only
      cases compilePattern host library req.pattern lang with
      | error error => exact safe_error_iff error
      | ok findAll =>
          cases disk.readToString (.ofText req.path) with
          | error error => exact safe_error_iff error
          | ok source => exact report_safe_iff

/-- A search never panics and shows fronts of its matches exactly where no match that it goes
through is longer than a report and has a character across the cut. -/
theorem grep_safe_iff (host : Host) (library : AstLibrary) (disk : Disk) (gate : CapabilityGate)
    (req : AstGrepRequest) :
    Safe (examined host library disk gate req) (grep host library disk gate req) ↔
      ∀ offer ∈ examined host library disk gate req, Cuttable offer.2.text := by
  rw [examined, grep]
  cases ensurePath gate "desktop.fs.read" req.path with
  | error error => exact safe_error_iff error
  | ok granted =>
      cases disk.fs.metadata (.ofText req.path) with
      | error errno => exact safe_error_iff _
      | ok node =>
          cases node with
          | file bytes => exact grepFile_safe_iff
          | symlink target => exact grepFile_safe_iff
          | dir =>
              dsimp only
              cases collected : collectFiles disk (explicitLang library req.language)
                  (maxWalkDepth + 1) (.ofText req.path) [] with
              | ok files => exact grepDir_safe_iff collected
              | error error =>
                  rw [grepDir, collected]
                  exact safe_error_iff error

end Request

/-- A text in quotes with a character of two bytes across the cut. -/
def quotedSource : String :=
  String.ofList ('"' :: List.replicate 498 'a' ++ 'é' :: ['"'])

theorem quotedSource_across : ¬ Cuttable quotedSource := by
  apply not_cuttable_across
  · intro char member
    rcases List.mem_cons.mp member with rfl | letter
    · decide
    · rw [List.eq_of_mem_replicate letter]
      decide
  · rw [List.length_cons, List.length_replicate]
    decide
  · rw [List.length_cons, List.length_replicate]
    decide

/-- A library that finds a source as a whole. -/
def wholeLibrary : AstLibrary where
  parse _ := none
  display _ := "Python"
  compile _ _ := .ok fun source => [⟨0, 0, 0, 501, source⟩]
  within := by
    intro pattern lang findAll source found compiled member
    obtain rfl := Except.ok.inj compiled
    obtain rfl := List.mem_singleton.mp member
    exact List.infix_refl _

/-- One file holds a text. -/
def oneFile (text : String) : Disk where
  fs := FileSystem.empty.put ["a.py"] (.file (Text.encode text))
  refuses _ := none

theorem oneFile_read (text : String) : (oneFile text).readToString (.ofText "/a.py") = .ok text := by
  have held : (oneFile text).fs.read (.ofText "/a.py") = .ok (Text.encode text) := rfl
  rw [Disk.readToString, held]
  simp only [oneFile, Text.strict_encode]

def readGate : CapabilityGate := .ofScopes ⟨["desktop.fs.read"], ["/"]⟩

/-- A text that cannot be cut ends the search of its file. -/
theorem grep_oneFile {text : String} (inside : ¬ Cuttable text) :
    grep .quiet wholeLibrary (oneFile text) readGate ⟨"/a.py", "$A", none, none⟩ = none := by
  have granted : ensurePath readGate "desktop.fs.read" "/a.py" = .ok () := by decide
  have held : (oneFile text).fs.metadata (.ofText "/a.py") = .ok (.file (Text.encode text)) := rfl
  have lang : resolveLang .quiet wholeLibrary none "/a.py" = .ok .python := by decide
  have reported : report 100 none [⟨0, 0, 0, 501, text⟩] [] = none :=
    report_of_not_cuttable 100 [] List.mem_cons_self inside
  simp only [grep, granted, held, grepFile, lang, compilePattern, oneFile_read]
  simp only [wholeLibrary]
  exact congrArg (Option.map _) reported

/-- The search of one file ends the daemon. -/
theorem quotedSource_kills : ¬∀ (host : Host) (library : AstLibrary) (disk : Disk)
    (gate : CapabilityGate) (req : AstGrepRequest),
    Safe (examined host library disk gate req) (grep host library disk gate req) := by
  intro all
  obtain ⟨answer, returned, -⟩ :=
    all .quiet wholeLibrary (oneFile quotedSource) readGate ⟨"/a.py", "$A", none, none⟩
  rw [grep_oneFile quotedSource_across] at returned
  cases returned
end Daemon.AstOps
