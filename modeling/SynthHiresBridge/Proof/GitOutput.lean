import SynthHiresBridge.Daemon.GitOps
import SynthHiresBridge.Data.CharBoundary
import SynthHiresBridge.Data.Separated

namespace Daemon.GitOps

open Posix

/-- A result keeps a front of the output within the cap, and all of an output that fits. -/
def Kept (output : String) (result : Except DaemonError String) : Prop :=
  ∃ front rest, result = .ok front ∧ output = front ++ rest ∧
    (Text.encode front).length ≤ maxOutputBytes ∧
    ((Text.encode output).length ≤ maxOutputBytes → front = output)

/-- No character of the output is cut. -/
def Uncut (output : String) : Prop :=
  (Text.encode output).length ≤ maxOutputBytes ∨
    Text.isCharBoundary (Text.encode output) maxOutputBytes = true

instance (output : String) : Decidable (Uncut output) :=
  inferInstanceAs (Decidable (_ ∨ _))

/-- What is left of an output at the cap. -/
def capped (output : String) : String :=
  Text.lossy ((Text.encode output).take maxOutputBytes)

theorem runGit_exited {bytes : List UInt8} {text : String} (stderr : List UInt8)
    (read : Text.strict (bytes.take maxOutputBytes) = some text) :
    runGit (.exited true bytes stderr) = .ok text := by
  simp only [runGit, Bool.not_true, Bool.false_eq_true, if_false, read]

/-- An output that is not cut inside a character is a text before and after the cap. -/
theorem Uncut.parts {output : String} (uncut : Uncut output) : ∃ front rest,
    output = front ++ rest ∧ Text.encode front = (Text.encode output).take maxOutputBytes ∧
      ((Text.encode output).length ≤ maxOutputBytes → front = output) := by
  rcases Nat.lt_or_ge maxOutputBytes (Text.encode output).length with long | short
  · have boundary := uncut.resolve_left (by omega)
    obtain ⟨front, rest, same, bytes⟩ := Text.cut_of_boundary (Nat.le_of_lt long) boundary
    exact ⟨front, rest, same, bytes, fun fits => absurd long (by omega)⟩
  · exact ⟨output, "", String.append_empty.symm, (List.take_of_length_le short).symm, fun _ => rfl⟩

theorem runGit_uncut {output : String} (uncut : Uncut output) (stderr : List UInt8) :
    runGit (.exited true (Text.encode output) stderr) = .ok (capped output) := by
  obtain ⟨front, rest, -, bytes, -⟩ := uncut.parts
  apply runGit_exited
  rw [capped, ← bytes, Text.strict_encode, Text.lossy_encode]

/-- An output that is cut inside a character is refused. -/
theorem runGit_cut {output : String} (inner : ¬ Uncut output) (stderr : List UInt8) :
    ∃ error, runGit (.exited true (Text.encode output) stderr) = .error error := by
  obtain ⟨long, cut⟩ := not_or.mp inner
  have none := Text.strict_take_none (Nat.le_of_lt (Nat.lt_of_not_le long))
    (Bool.eq_false_iff.mpr cut)
  simp only [runGit, Bool.not_true, Bool.false_eq_true, if_false, none]
  exact ⟨_, rfl⟩

theorem kept_iff (output : String) (stderr : List UInt8) :
    Kept output (runGit (.exited true (Text.encode output) stderr)) ↔ Uncut output := by
  constructor
  · rintro ⟨front, rest, result, -⟩
    by_contra inner
    obtain ⟨error, refused⟩ := runGit_cut inner stderr
    rw [refused] at result
    cases result
  · intro uncut
    obtain ⟨front, rest, same, bytes, whole⟩ := uncut.parts
    refine ⟨front, rest, ?_, same, ?_, whole⟩
    · rw [runGit_uncut uncut, capped, ← bytes, Text.lossy_encode]
    · rw [bytes]
      exact List.length_take_le _ _

/-- A column has no tab, so it is its own only column. -/
theorem columns_of_mem {line column : String} (member : column ∈ columns line) :
    columns column = [column] := by
  rw [columns, Text.split, List.mem_map] at member
  obtain ⟨chars, piece, rfl⟩ := member
  have clean : ∀ char ∈ chars, (char == '\t') = false :=
    fun char inside => (Separated.mem_splitOnP_iff.mp ⟨chars, piece, inside⟩).2
  rw [columns, Text.split, String.toList_ofList, List.splitOnP_eq_singleton clean,
    List.map_singleton]

theorem files_planOf (numstat : String) (maxFiles : Nat) :
    (planOf numstat maxFiles).files = (fileNames numstat).take maxFiles := rfl

/-- The loop for renamed files changes no name. -/
theorem asked_planOf (numstat : String) (maxFiles : Nat) :
    (planOf numstat maxFiles).asked = (fileNames numstat).take maxFiles := by
  rw [DiffPlan.asked, files_planOf]
  refine (List.map_congr_left (g := id) ?_).trans (List.map_id _)
  intro file member
  obtain ⟨line, -, third⟩ := List.mem_filterMap.mp (List.mem_of_mem_take member)
  rw [columns_of_mem (List.mem_of_getElem? third)]
  rfl

/-- A file is counted for each name. -/
theorem filesChanged_planOf (numstat : String) (maxFiles : Nat) :
    (planOf numstat maxFiles).filesChanged = (fileNames numstat).length := by
  have run : ∀ (lines : List String) (counts : Nat × Nat × Nat),
      (lines.foldl countLine counts).1 =
        counts.1 + (lines.filterMap fun line => (columns line)[2]?).length := by
    intro lines
    induction lines with
    | nil => exact fun counts => rfl
    | cons line lines ih =>
        intro counts
        rw [List.foldl_cons, ih, List.filterMap_cons, countLine]
        rcases columns line with _ | ⟨added, _ | ⟨deleted, _ | ⟨name, more⟩⟩⟩
        · rfl
        · rfl
        · rfl
        · simp only [List.getElem?_cons_succ, List.getElem?_cons_zero, List.length_cons]
          omega
  have start := run (Text.lines numstat) (0, 0, 0)
  rwa [Nat.zero_add] at start

theorem truncated_planOf_iff (numstat : String) (maxFiles : Nat) :
    (planOf numstat maxFiles).truncated = true ↔ maxFiles < (fileNames numstat).length := by
  rw [DiffPlan.truncated, decide_eq_true_iff, filesChanged_planOf, files_planOf, List.length_take]
  omega

theorem diff_eq {gate : CapabilityGate} {host : GitHost} {request : GitDiffRequest}
    {root : PathBuf} {numstat : String} (resolved : gateRepo gate host request.path = .ok root)
    (valid : invalidTarget (request.target.getD "unstaged") = false)
    (read : runGit (host.git root (statArgs (request.target.getD "unstaged"))) = .ok numstat) :
    diff gate host request = diffBody (host.git root) (request.target.getD "unstaged")
      (planOf numstat (clampFiles request.maxFiles)) := by
  rw [diff, resolved]
  simp only [bind, Except.bind, valid, Bool.false_eq_true, if_false, read]

/-- A diff that is returned has passed the gate and both calls. -/
theorem diff_ok {gate : CapabilityGate} {host : GitHost} {request : GitDiffRequest}
    {root : PathBuf} {result : GitDiffResult} (resolved : gateRepo gate host request.path = .ok root)
    (returned : diff gate host request = .ok result) : ∃ numstat,
      runGit (host.git root (statArgs (request.target.getD "unstaged"))) = .ok numstat ∧
      diffBody (host.git root) (request.target.getD "unstaged")
        (planOf numstat (clampFiles request.maxFiles)) = .ok result := by
  rw [diff, resolved] at returned
  simp only [bind, Except.bind] at returned
  split_ifs at returned with flag
  cases listed : runGit (host.git root (statArgs (request.target.getD "unstaged"))) with
  | error error =>
      rw [listed] at returned
      cases returned
  | ok numstat =>
      rw [listed] at returned
      exact ⟨numstat, rfl, returned⟩

theorem truncated_of_diffBody {git : List String → GitRun} {target : String} {plan : DiffPlan}
    {result : GitDiffResult} (returned : diffBody git target plan = .ok result) :
    result.truncated = plan.truncated := by
  rw [diffBody, Except.map.eq_def] at returned
  split at returned
  · cases returned
  · rw [← Except.ok.inj returned]

/-- The names that are asked for are not all the names of the listing, or what git gives for them
is longer than the cap. -/
def WasCut (git : List String → GitRun) (target listing : String) (maxFiles : Nat) : Prop :=
  let asked := (planOf (capped listing) maxFiles).asked
  asked ≠ fileNames listing ∨
    (asked ≠ [] ∧ maxOutputBytes < (git (diffArgs target asked)).stdout.length)

/-- The listing within the cap names more files than are shown, or nothing is cut. -/
def CutsShow (git : List String → GitRun) (target listing : String) (maxFiles : Nat) : Prop :=
  maxFiles < (fileNames (capped listing)).length ∨
    (fileNames (capped listing) = fileNames listing ∧ (fileNames listing = [] ∨
      (git (diffArgs target (fileNames listing))).stdout.length ≤ maxOutputBytes))

theorem wasCut_iff (git : List String → GitRun) (target : String) {listing : String}
    {maxFiles : Nat} (few : (fileNames (capped listing)).length ≤ maxFiles) :
    ¬ WasCut git target listing maxFiles ↔
      fileNames (capped listing) = fileNames listing ∧ (fileNames listing = [] ∨
        (git (diffArgs target (fileNames listing))).stdout.length ≤ maxOutputBytes) := by
  rw [WasCut, asked_planOf, List.take_of_length_le few]
  simp only [not_or, not_and, not_not, Nat.not_lt]
  constructor
  · rintro ⟨same, fits⟩
    rw [same] at fits
    refine ⟨same, ?_⟩
    by_cases empty : fileNames listing = []
    · exact .inl empty
    · exact .inr (fits empty)
  · rintro ⟨same, fits⟩
    rw [same]
    exact ⟨rfl, fun filled => fits.resolve_left filled⟩

/-- Every output of git comes back as a front within the cap exactly where no character is cut, and
a diff tells of every cut exactly where nothing is cut or the listing within the cap names more
files than are shown. -/
theorem git_cap_honest_iff (output : String) (stderr : List UInt8) {gate : CapabilityGate}
    {host : GitHost} {request : GitDiffRequest} {root : PathBuf} {result : GitDiffResult}
    {listing target : String} {errors : List UInt8}
    (chosen : request.target.getD "unstaged" = target)
    (resolved : gateRepo gate host request.path = .ok root)
    (listed : host.git root (statArgs target) = .exited true (Text.encode listing) errors)
    (returned : diff gate host request = .ok result) :
    (Kept output (runGit (.exited true (Text.encode output) stderr)) ↔ Uncut output) ∧
      ((WasCut (host.git root) target listing (clampFiles request.maxFiles) →
          result.truncated = true) ↔
        CutsShow (host.git root) target listing (clampFiles request.maxFiles)) := by
  refine ⟨kept_iff output stderr, ?_⟩
  obtain ⟨numstat, read, given⟩ := diff_ok resolved returned
  rw [chosen] at given
  rw [chosen, listed] at read
  have uncut : Uncut listing := by
    by_contra inner
    obtain ⟨error, refused⟩ := runGit_cut inner errors
    rw [refused] at read
    cases read
  rw [runGit_uncut uncut] at read
  obtain rfl := Except.ok.inj read
  rw [truncated_of_diffBody given, truncated_planOf_iff, CutsShow]
  generalize clampFiles request.maxFiles = maxFiles
  rcases Nat.lt_or_ge maxFiles (fileNames (capped listing)).length with many | few
  · exact iff_of_true (fun _ => many) (.inl many)
  · have none : ¬ maxFiles < (fileNames (capped listing)).length := Nat.not_lt.mpr few
    rw [or_iff_right none, ← wasCut_iff (host.git root) target few]
    exact ⟨fun tells cut => none (tells cut), fun whole cut => absurd cut whole⟩

/-- A gate that covers one repository. -/
def repoGate : CapabilityGate := ⟨⟨["desktop.fs.read"], [⟨.root, [.normal "r"], .plain⟩], []⟩⟩

/-- One file is listed, and its hunks are given. -/
def oneFileHost (hunks : List UInt8) : GitHost where
  currentDir := .ok ⟨.root, [], .plain⟩
  git _ args :=
    if args = ["rev-parse", "--show-toplevel"] then .exited true (Text.encode "/r\n") []
    else if args = ["diff", "--numstat"] then .exited true (Text.encode "1\t0\ta\n") []
    else .exited true hunks []
  debug target := target

def oneFileRequest : GitDiffRequest := ⟨⟨.root, [.normal "r"], .plain⟩, none, none⟩

def oneFileRoot : PathBuf := ⟨.root, [.normal "r"], .plain⟩

theorem oneFile_resolved (hunks : List UInt8) :
    gateRepo repoGate (oneFileHost hunks) oneFileRequest.path = .ok oneFileRoot := rfl

theorem oneFile_listed (hunks : List UInt8) :
    (oneFileHost hunks).git oneFileRoot (statArgs "unstaged") =
      .exited true (Text.encode "1\t0\ta\n") [] := rfl

theorem git_cap_honest_small :
    (Kept "a" (runGit (.exited true (Text.encode "a") [])) ↔ Uncut "a") ∧
      ((WasCut ((oneFileHost [0x2B]).git oneFileRoot) "unstaged" "1\t0\ta\n" 40 →
          false = true) ↔
        CutsShow ((oneFileHost [0x2B]).git oneFileRoot) "unstaged" "1\t0\ta\n" 40) := by
  have chosen : oneFileRequest.target.getD "unstaged" = "unstaged" := rfl
  have returned : diff repoGate (oneFileHost [0x2B]) oneFileRequest =
      .ok ⟨"unstaged", 1, 1, 0, false, "+"⟩ := rfl
  exact git_cap_honest_iff "a" [] chosen (oneFile_resolved [0x2B]) (oneFile_listed [0x2B]) returned

def repeated (count : Nat) (char : Char) : String := String.ofList (List.replicate count char)

theorem encode_euros (count : Nat) : Text.encode (repeated (count + 1) '€') =
    Text.encode (repeated count '€') ++ String.utf8EncodeChar '€' ++ [] := by
  rw [repeated, List.replicate_succ', Text.encode_append, List.append_nil]
  simp [Text.encode, repeated]

theorem length_euros (count : Nat) : (Text.encode (repeated count '€')).length = 3 * count := by
  induction count with
  | zero => rfl
  | succ count ih =>
      have three : (String.utf8EncodeChar '€').length = 3 := by decide
      rw [encode_euros, List.append_nil, List.length_append, ih, three]
      omega

/-- The cap is no multiple of the three bytes of a euro sign. -/
theorem euros_cut {count : Nat} (after : 3 * count < maxOutputBytes)
    (before : maxOutputBytes < 3 * count + 3) : ¬ Uncut (repeated (count + 1) '€') := by
  have three : (String.utf8EncodeChar '€').length = 3 := by decide
  rw [Uncut, not_or, length_euros]
  constructor
  · omega
  · rw [encode_euros, Text.not_isCharBoundary]
    · exact Bool.false_ne_true
    · rwa [length_euros]
    · rwa [length_euros, three]

theorem encode_letters (count : Nat) :
    Text.encode (repeated count 'x') = List.replicate count 0x78 := by
  rw [repeated, Text.encode_ascii, List.map_replicate]
  · rfl
  · intro char member
    rw [(List.mem_replicate.mp member).2]
    decide

/-- The body of one file is shown without the flag however long it is. -/
theorem oneFile_diff {count : Nat} (long : maxOutputBytes < count) :
    let host := oneFileHost (Text.encode (repeated count 'x'))
    ∃ result, diff repoGate host oneFileRequest = .ok result ∧
      WasCut (host.git oneFileRoot) "unstaged" "1\t0\ta\n" 40 ∧ result.truncated = false := by
  intro host
  have uncut : Uncut (repeated count 'x') := by
    right
    rw [Text.isCharBoundary, if_neg (by decide), encode_letters,
      List.getElem?_replicate_of_lt long]
    rfl
  have given : host.git oneFileRoot (diffArgs "unstaged" ["a"]) =
      .exited true (Text.encode (repeated count 'x')) [] := rfl
  have asked : (planOf (capped "1\t0\ta\n") 40).asked = ["a"] := rfl
  refine ⟨⟨"unstaged", 1, 1, 0, false, capped (repeated count 'x')⟩, ?_, ?_, rfl⟩
  · have read := diff_eq (oneFile_resolved (Text.encode (repeated count 'x'))) (by decide) rfl
    have body : runGit (host.git oneFileRoot (diffArgs "unstaged" ["a"])) =
        .ok (capped (repeated count 'x')) := runGit_uncut uncut []
    rw [read]
    exact congrArg (Except.map _) body
  · right
    rw [asked, given]
    refine ⟨List.cons_ne_nil _ _, ?_⟩
    rwa [GitRun.stdout, encode_letters, List.length_replicate]

/-- A successful output can be refused, and a body that was cut can come without the flag. -/
theorem large_output_refused :
    ¬ Kept (repeated 174763 '€') (runGit (.exited true (Text.encode (repeated 174763 '€')) [])) ∧
      ∃ result, diff repoGate (oneFileHost (Text.encode (repeated 524289 'x'))) oneFileRequest =
          .ok result ∧
        WasCut ((oneFileHost (Text.encode (repeated 524289 'x'))).git oneFileRoot) "unstaged"
          "1\t0\ta\n" 40 ∧ result.truncated = false :=
  ⟨fun kept => euros_cut (by decide) (by decide) ((kept_iff _ []).mp kept), oneFile_diff (by decide)⟩

end Daemon.GitOps
