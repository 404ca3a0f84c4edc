import Mathlib.Data.List.Infix
import SynthHiresBridge.Data.Cut
import SynthHiresBridge.Data.Replace
import SynthHiresBridge.Daemon.WsClient

namespace Daemon

open Text

def bracedIfs : List Char := ['$', '\x7b', 'i', 'f', 's', '\x7d']

def bareIfs : List Char := ['$', 'i', 'f', 's']

/-- The command as the backstop looks at it. -/
def normalised (command : List Char) : List Char :=
  replaceAll ['\t'] [' '] (replaceAll bareIfs [' '] (replaceAll bracedIfs [' '] (lower command)))

theorem containsDangerousShell_iff (command : List Char) :
    containsDangerousShell (String.ofList command) = true ↔
      ∃ pattern ∈ dangerousPatterns, pattern.toList <:+: normalised command := by
  unfold containsDangerousShell
  rw [List.any_eq_true]
  refine exists_congr fun pattern => and_congr_right fun _ => ?_
  simp only [Text.contains, toList_replace, String.toList_ofList, List.any_eq_true,
    List.mem_tails, List.isPrefixOf_iff_prefix]
  constructor
  · rintro ⟨rest, later, start⟩
    exact start.isInfix.trans later.isInfix
  · rintro ⟨front, back, same⟩
    rw [List.append_assoc] at same
    exact ⟨pattern.toList ++ back, ⟨front, same⟩, List.prefix_append _ _⟩

/-- The ways to write a space that the backstop knows, in any case. -/
def blanks : List (List Char) := [[' '], ['\t'], bareIfs, bracedIfs]

def SpellsBlank (word : List Char) : Prop := lower word ∈ blanks

instance : DecidablePred SpellsBlank := fun word =>
  inferInstanceAs (Decidable (lower word ∈ blanks))

/-- A command is written anew with other cases of its letters and other blanks. -/
inductive Respells : List Char → List Char → Prop where
  | nil : Respells [] []
  | char (first second : Char) (same : first.toLower = second.toLower) {rest other : List Char}
      (more : Respells rest other) : Respells (first :: rest) (second :: other)
  | blank (first second : List Char) (one : SpellsBlank first) (two : SpellsBlank second)
      {rest other : List Char} (more : Respells rest other) :
      Respells (first ++ rest) (second ++ other)

theorem Respells.refl (command : List Char) : Respells command command := by
  induction command with
  | nil => exact .nil
  | cons char rest ih => exact .char char char rfl ih

theorem Respells.append {first second rest other : List Char} (front : Respells first second)
    (back : Respells rest other) : Respells (first ++ rest) (second ++ other) := by
  induction front with
  | nil => exact back
  | char one two same _ ih => exact .char one two same ih
  | blank one two before after _ ih =>
      rw [List.append_assoc, List.append_assoc]
      exact .blank one two before after ih

/-- The braced blank is not found at a bare one. -/
theorem replaceAll_bareIfs (front back : List Char) :
    replaceAll bracedIfs [' '] (front ++ (bareIfs ++ back)) =
      replaceAll bracedIfs [' '] front ++ (bareIfs ++ replaceAll bracedIfs [' '] back) := by
  have apart : ¬ bracedIfs <+: '$' :: (['i', 'f', 's'] ++ back) := by
    intro inside
    have second := (List.cons_prefix_cons.mp inside).2
    exact absurd (List.cons_prefix_cons.mp second).1 (by decide)
  have past : ∀ (char : Char) (rest : List Char), char ≠ '$' →
      replaceAll bracedIfs [' '] (char :: rest) = char :: replaceAll bracedIfs [' '] rest :=
    fun char rest other => replaceAll_other [' '] other rest
  have seam : Seam bracedIfs front (bareIfs ++ back) := seam_of_notMem (by decide) front _
  rw [replaceAll_seam [' '] (by decide) seam, bareIfs, List.cons_append, replaceAll_cons [' '] apart,
    List.cons_append, past _ _ (by decide), List.cons_append, past _ _ (by decide),
    List.cons_append, past _ _ (by decide)]
  rfl

/-- A spelled blank separates what is before it from what is after it. -/
theorem normalised_blank {word : List Char} (blank : SpellsBlank word) (front back : List Char) :
    normalised (front ++ (word ++ back)) = normalised front ++ ' ' :: normalised back := by
  have parts : lower (front ++ (word ++ back)) = lower front ++ (lower word ++ lower back) := by
    rw [lower, List.map_append, List.map_append]
    rfl
  unfold normalised
  rw [parts]
  have plain : ∀ char : Char, char ∉ bracedIfs → char ∉ bareIfs →
      replaceAll bareIfs [' '] (replaceAll bracedIfs [' '] (lower front ++ char :: lower back)) =
        replaceAll bareIfs [' '] (replaceAll bracedIfs [' '] (lower front)) ++
          char :: replaceAll bareIfs [' '] (replaceAll bracedIfs [' '] (lower back)) := by
    intro char braced bare
    rw [bracedIfs, replaceAll_around [' '] braced, bareIfs, replaceAll_around [' '] bare]
  have space := @replaceAll_around [' '] '\t' ' ' [] (by decide)
  rcases List.mem_cons.mp blank with same | blank
  · rw [same, List.singleton_append, plain ' ' (by decide) (by decide), space]
  rcases List.mem_cons.mp blank with same | blank
  · rw [same, List.singleton_append, plain '\t' (by decide) (by decide)]
    exact replaceAll_at [' '] List.not_mem_nil _ _
  rcases List.mem_cons.mp blank with same | blank
  · rw [same, replaceAll_bareIfs, bareIfs, replaceAll_at [' '] (by decide), List.singleton_append,
      space]
  · rw [List.mem_singleton.mp blank, bracedIfs, replaceAll_at [' '] (by decide), ← bracedIfs,
      List.singleton_append, bareIfs, replaceAll_around [' '] (by decide), space]

theorem lower_append (front back : List Char) : lower (front ++ back) = lower front ++ lower back :=
  List.map_append

/-- The case of the letters does not matter. -/
theorem normalised_congr {first second : List Char} (same : lower first = lower second) :
    normalised first = normalised second := by
  rw [normalised, same, normalised]

/-- A new spelling looks the same to the backstop. -/
theorem Respells.normalised {first second : List Char} (respells : Respells first second) :
    normalised first = normalised second := by
  -- What stands before is spelled with other cases only.
  suffices every : ∀ front other : List Char, lower front = lower other →
      Daemon.normalised (front ++ first) = Daemon.normalised (other ++ second) from every [] [] rfl
  induction respells with
  | nil =>
      intro front other same
      rw [List.append_nil, List.append_nil]
      exact normalised_congr same
  | char one two cases _ ih =>
      intro front other same
      have longer : lower (front ++ [one]) = lower (other ++ [two]) := by
        rw [lower_append, lower_append, same]
        exact congrArg (lower other ++ [·]) cases
      have rest := ih (front ++ [one]) (other ++ [two]) longer
      rwa [List.append_assoc, List.append_assoc] at rest
  | blank one two before after _ ih =>
      intro front other same
      rw [normalised_blank before, normalised_blank after, normalised_congr same]
      exact congrArg (Daemon.normalised other ++ ' ' :: ·) (ih [] [] rfl)

/-- A new spelling of a command is flagged exactly when the command is. -/
theorem respelled_flagged_iff (first second : List Char) (respells : Respells first second) :
    containsDangerousShell (String.ofList first) = true ↔
      containsDangerousShell (String.ofList second) = true := by
  rw [containsDangerousShell_iff, containsDangerousShell_iff, respells.normalised]

/-- A removal of everything is spelled with capital letters and a bare blank. -/
theorem respelled_removal :
    containsDangerousShell (String.ofList "rm -rf /".toList) = true ↔
      containsDangerousShell (String.ofList "Rm$IFS-rf /".toList) = true :=
  respelled_flagged_iff _ _ (.char 'r' 'R' (by decide) (.char 'm' 'm' rfl
    (.blank [' '] "$IFS".toList (by decide) (by decide) (.refl "-rf /".toList))))

/-- A word parts from every rest of a blank, apart from one letter of the bare one. -/
def Standing (word : List Char) : Prop :=
  lower word = word ∧ '$' ∉ word ∧
    (∀ tail ∈ bracedIfs.tail.tails, tail ≠ [] → ¬ tail <+: word ∧ ¬ word <+: tail) ∧
    ∀ tail ∈ bareIfs.tail.tails, tail ≠ [] → tail ≠ ['s'] → ¬ tail <+: word ∧ ¬ word <+: tail

instance (word : List Char) : Decidable (Standing word) :=
  inferInstanceAs (Decidable (_ ∧ _))

theorem dangerousPatterns_standing {pattern : String} (listed : pattern ∈ dangerousPatterns) :
    Standing pattern.toList := by
  have all : (dangerousPatterns.all fun pattern => decide (Standing pattern.toList)) = true := by
    decide
  exact of_decide_eq_true (List.all_eq_true.mp all pattern listed)

/-- A pattern with its tab written as a space is a pattern too. -/
theorem dangerousPatterns_tabs {pattern : String} (listed : pattern ∈ dangerousPatterns) :
    String.ofList (replaceAll ['\t'] [' '] pattern.toList) ∈ dangerousPatterns := by
  have all : (dangerousPatterns.all fun pattern => decide (String.ofList
      (replaceAll ['\t'] [' '] pattern.toList) ∈ dangerousPatterns)) = true := by decide
  exact of_decide_eq_true (List.all_eq_true.mp all pattern listed)

/-- Such a word is still seen unless the text before it ends in all but the last letter of a bare
blank. -/
theorem Standing.seen {word front : List Char} (standing : Standing word)
    (apart : ¬ ['$', 'i', 'f'] <:+ lower front) (back : List Char) :
    replaceAll ['\t'] [' '] word <:+: Daemon.normalised (front ++ (word ++ back)) := by
  obtain ⟨same, free, braced, bare⟩ := standing
  have first : Seam bracedIfs (lower front) (word ++ lower back) :=
    seam_of_apart (fun _ tail _ member filled _ => braced tail member filled) _
  have before : ¬ ['$', 'i', 'f'] <:+ replaceAll bracedIfs [' '] (lower front) := fun inside =>
    apart (suffix_of_suffix_replaceAll (by decide) (by decide) inside)
  have second : Seam bareIfs (replaceAll bracedIfs [' '] (lower front))
      (word ++ replaceAll bracedIfs [' '] (lower back)) := by
    refine seam_of_apart (fun head tail parts member filled start => ?_) _
    refine bare tail member filled fun letter => before ?_
    rw [letter] at parts
    have split : ['$', 'i', 'f'] ++ ['s'] = head ++ ['s'] := parts
    rwa [List.append_cancel_right split]
  have third := fun front back => replaceAll_seam [' '] (by decide) (seam_singleton '\t' front back)
  rw [Daemon.normalised, lower_append, lower_append, same, replaceAll_seam [' '] (by decide) first]
  rw [bracedIfs, replaceAll_absent [' '] free, ← bracedIfs,
    replaceAll_seam [' '] (by decide) second, bareIfs, replaceAll_absent [' '] free, third, third]
  exact List.infix_append' _ _ _

/-- Every spelling of a dangerous pattern is refused before anything runs, in every state of the
client and whatever the owner has answered. -/
theorem spelled_pattern_refused (client : WsClient) (host : Host) (moment : Moment)
    (request : ActionRequestFrame) (decision : Option ConsentAnswer)
    (shell : request.capability = "desktop.shell.execute") (front word back : List Char)
    (pattern : String) (listed : pattern ∈ dangerousPatterns)
    (spelled : Respells pattern.toList word) (apart : ¬ ['$', 'i', 'f'] <:+ lower front)
    (given : request.params.get "command" =
      some (.string (String.ofList (front ++ (word ++ back))))) :
    ∃ reason, client.handleAction host moment request decision =
      client.sendError request.id reason := by
  have respells : Respells (front ++ (pattern.toList ++ back)) (front ++ (word ++ back)) :=
    (Respells.refl front).append (spelled.append (Respells.refl back))
  have flagged : containsDangerousShell (String.ofList (front ++ (word ++ back))) = true := by
    rw [containsDangerousShell_iff, ← respells.normalised]
    refine ⟨_, dangerousPatterns_tabs listed, ?_⟩
    rw [String.toList_ofList]
    exact (dangerousPatterns_standing listed).seen apart back
  have stops : ∃ reason, client.refusal request = some reason := by
    have held : request.capability = "desktop.shell.execute" ∧ containsDangerousShell
        (((request.params.get "command").bind Json.Value.asStr).getD "") = true := by
      rw [given]
      exact ⟨shell, flagged⟩
    by_cases missing : requiredScope request ≠ "self" ∧
        client.gate.allows (requiredScope request) = false
    · exact ⟨_, if_pos missing⟩
    · exact ⟨_, (if_neg missing).trans (if_pos held)⟩
  obtain ⟨reason, refused⟩ := stops
  refine ⟨reason, ?_⟩
  rw [WsClient.handleAction, refused]

/-- The owner has granted the shell and has approved the command, which is refused all the same. -/
theorem spelled_sudo_refused :
    let client := WsClient.start (.ofScopes ⟨["desktop.shell.execute"], []⟩) none .empty
    let request : ActionRequestFrame := ⟨1, "a", "desktop.shell.execute",
      .object [("command", .string "ls; Sudo$IFS-i")], none, true⟩
    ∃ reason, client.handleAction .quiet (.quiet 0) request (some ⟨true, true⟩) =
      client.sendError request.id reason :=
  spelled_pattern_refused _ _ _ _ _ rfl "ls; ".toList "Sudo$IFS".toList "-i".toList "sudo "
    (by decide) (.char 's' 'S' (by decide) (.char 'u' 'u' rfl (.char 'd' 'd' rfl
      (.char 'o' 'o' rfl (.blank [' '] "$IFS".toList (by decide) (by decide) .nil)))))
    (by decide) rfl

end Daemon
