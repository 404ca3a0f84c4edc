import SynthHiresBridge.Data.Text
import Mathlib.Data.List.DropRight
import Mathlib.Data.List.Infix

namespace Text

/-- All places of a pattern in a text are replaced. -/
def replaceAll (pattern replacement text : List Char) : List Char :=
  replaceFrom pattern replacement text.length text

theorem toList_replace (text pattern replacement : String) :
    (replace text pattern replacement).toList =
      replaceAll pattern.toList replacement.toList text.toList := by
  rw [replace, String.toList_ofList, replaceAll, String.length_toList]

section Steps

variable {pattern : List Char} (replacement : List Char)

theorem replaceFrom_enough (solid : pattern ≠ []) {fuel : Nat} {text : List Char}
    (enough : text.length ≤ fuel) :
    replaceFrom pattern replacement fuel text = replaceAll pattern replacement text := by
  induction fuel using Nat.strong_induction_on generalizing text with
  | _ fuel ih =>
      cases text with
      | nil => cases fuel <;> rfl
      | cons char rest =>
          obtain ⟨fuel, rfl⟩ : ∃ less, fuel = less + 1 :=
            ⟨fuel - 1, by simp only [List.length_cons] at enough; omega⟩
          have fewer : rest.length ≤ fuel := by simpa using enough
          rw [replaceAll, List.length_cons, replaceFrom, replaceFrom]
          split
          · have shorter : ((char :: rest).drop pattern.length).length ≤ rest.length := by
              have long := List.length_pos_iff.mpr solid
              rw [List.length_drop, List.length_cons]
              omega
            rw [ih fuel (Nat.lt_succ_self _) (shorter.trans fewer)]
            rcases Nat.lt_or_eq_of_le fewer with less | rfl
            · rw [ih rest.length (by omega) shorter]
            · rw [ih rest.length (Nat.lt_succ_self _) shorter]
          · rw [ih fuel (Nat.lt_succ_self _) fewer]
            rfl

@[simp] theorem replaceAll_nil : replaceAll pattern replacement [] = [] := rfl

theorem replaceAll_append (solid : pattern ≠ []) (rest : List Char) :
    replaceAll pattern replacement (pattern ++ rest) =
      replacement ++ replaceAll pattern replacement rest := by
  obtain ⟨first, more, rfl⟩ := List.exists_cons_of_ne_nil solid
  have here : (first :: more).isPrefixOf (first :: (more ++ rest)) = true :=
    List.isPrefixOf_iff_prefix.mpr (List.prefix_append (first :: more) rest)
  have past : (first :: (more ++ rest)).drop (first :: more).length = rest :=
    List.drop_left
  rw [replaceAll, List.cons_append, List.length_cons, replaceFrom, if_pos here, past,
    replaceFrom_enough replacement solid (by simp)]

theorem replaceAll_cons {char : Char} {rest : List Char}
    (apart : ¬ pattern <+: char :: rest) :
    replaceAll pattern replacement (char :: rest) = char :: replaceAll pattern replacement rest := by
  have missing : pattern.isPrefixOf (char :: rest) = false := by
    rw [← Bool.not_eq_true, List.isPrefixOf_iff_prefix]
    exact apart
  rw [replaceAll, List.length_cons, replaceFrom, missing]
  rfl

/-- A place starts with the first character of the pattern. -/
theorem replaceAll_other {first : Char} {more : List Char} {char : Char} (other : char ≠ first)
    (rest : List Char) :
    replaceAll (first :: more) replacement (char :: rest) =
      char :: replaceAll (first :: more) replacement rest :=
  replaceAll_cons replacement fun inside =>
    other (List.cons_prefix_cons.mp inside).1.symm

/-- A text without the pattern stays, and otherwise its first place is where the texts part. -/
theorem replaceAll_first (solid : pattern ≠ []) (text : List Char) :
    (¬ pattern <:+: text ∧ replaceAll pattern replacement text = text) ∨
      ∃ front later, text = front ++ (pattern ++ later) ∧
        replaceAll pattern replacement text =
          front ++ (replacement ++ replaceAll pattern replacement later) := by
  induction text with
  | nil => exact .inl ⟨fun inside => solid (List.infix_nil.mp inside), rfl⟩
  | cons char rest ih =>
      by_cases here : pattern <+: char :: rest
      · obtain ⟨later, same⟩ := here
        rw [← same]
        exact .inr ⟨[], later, rfl, replaceAll_append replacement solid later⟩
      · rw [replaceAll_cons replacement here]
        rcases ih with ⟨absent, stays⟩ | ⟨front, later, same, changed⟩
        · left
          rw [stays, List.infix_cons_iff]
          exact ⟨not_or.mpr ⟨here, absent⟩, rfl⟩
        · exact .inr ⟨char :: front, later, by rw [same, List.cons_append],
            by rw [changed, List.cons_append]⟩

/-- No place of a pattern stands across the seam of two texts. -/
def Seam (pattern front back : List Char) : Prop :=
  ∀ head tail, pattern = head ++ tail → head ≠ [] → tail ≠ [] → head <:+ front → ¬ tail <+: back

theorem Seam.cons {char : Char} {front back : List Char}
    (seam : Seam pattern (char :: front) back) : Seam pattern front back :=
  fun head tail same some more inside =>
    seam head tail same some more (inside.trans (List.suffix_cons char front))

/-- A character inside the pattern is needed at a seam. -/
theorem seam_of_notMem {first char : Char} {more : List Char} (absent : char ∉ more)
    (front back : List Char) : Seam (first :: more) front (char :: back) := by
  intro head tail same some filled _ inside
  obtain ⟨start, rest, rfl⟩ := List.exists_cons_of_ne_nil some
  obtain ⟨next, later, rfl⟩ := List.exists_cons_of_ne_nil filled
  rw [(List.cons_prefix_cons.mp inside).1] at same
  rw [(List.cons.inj same).2] at absent
  exact absent (List.mem_append_right rest List.mem_cons_self)

theorem seam_singleton (char : Char) (front back : List Char) : Seam [char] front back := by
  intro head tail same some filled _ _
  obtain ⟨start, rest, rfl⟩ := List.exists_cons_of_ne_nil some
  have empty := (List.append_eq_nil_iff.mp (List.cons.inj same).2.symm).2
  exact filled empty

/-- A word hides a seam where it parts from every rest of the pattern. -/
theorem seam_of_apart {first : Char} {more front word : List Char}
    (apart : ∀ head tail, first :: more = head ++ tail → tail ∈ more.tails → tail ≠ [] →
      head <:+ front → ¬ tail <+: word ∧ ¬ word <+: tail) (back : List Char) :
    Seam (first :: more) front (word ++ back) := by
  intro head tail same some filled before inside
  have proper : tail ∈ more.tails := by
    obtain ⟨start, rest, rfl⟩ := List.exists_cons_of_ne_nil some
    rw [List.mem_tails, (List.cons.inj same).2]
    exact List.suffix_append rest tail
  obtain ⟨short, long⟩ := apart head tail same proper filled before
  rcases List.prefix_or_prefix_of_prefix inside (List.prefix_append word back) with within | beyond
  · exact short within
  · exact long beyond

/-- Texts with a clean seam are replaced one by one. -/
theorem replaceAll_seam (solid : pattern ≠ []) {front back : List Char}
    (seam : Seam pattern front back) : replaceAll pattern replacement (front ++ back) =
      replaceAll pattern replacement front ++ replaceAll pattern replacement back := by
  induction long : front.length using Nat.strong_induction_on generalizing front with
  | _ size ih =>
      cases front with
      | nil => rfl
      | cons char front =>
          by_cases here : pattern <+: char :: front
          · obtain ⟨later, same⟩ := here
            rw [← same] at seam ⊢
            have fewer : later.length < size := by
              have some := List.length_pos_iff.mpr solid
              rw [← long, ← same, List.length_append]
              omega
            have inner : Seam pattern later back := fun head tail parts some more inside =>
              seam head tail parts some more (inside.trans (List.suffix_append pattern later))
            rw [List.append_assoc, replaceAll_append replacement solid,
              replaceAll_append replacement solid, ih _ fewer inner rfl, List.append_assoc]
          · have across : ¬ pattern <+: char :: (front ++ back) := by
              intro inside
              rcases List.prefix_or_prefix_of_prefix inside
                  (List.prefix_append (char :: front) back) with own | ⟨tail, same⟩
              · exact here own
              · rw [← same] at inside
                refine seam (char :: front) tail same.symm (List.cons_ne_nil _ _) ?_
                  List.suffix_rfl ((List.prefix_append_right_inj (char :: front)).mp inside)
                rintro rfl
                rw [List.append_nil] at same
                exact here (same ▸ List.prefix_rfl)
            have fewer : front.length < size := by
              rw [← long]
              exact Nat.lt_succ_self _
            rw [List.cons_append, replaceAll_cons replacement across,
              replaceAll_cons replacement here, ih _ fewer seam.cons rfl, List.cons_append]

/-- A text without the first character of the pattern stays. -/
theorem replaceAll_absent {first : Char} {more text : List Char} (absent : first ∉ text)
    (back : List Char) : replaceAll (first :: more) replacement (text ++ back) =
      text ++ replaceAll (first :: more) replacement back := by
  induction text with
  | nil => rfl
  | cons char rest ih =>
      obtain ⟨other, later⟩ := not_or.mp (List.mem_cons.not.mp absent)
      rw [List.cons_append, replaceAll_other replacement (Ne.symm other), ih later,
        List.cons_append]

/-- A character outside of the pattern separates the texts around it. -/
theorem replaceAll_around {first char : Char} {more : List Char} (absent : char ∉ first :: more)
    (front back : List Char) : replaceAll (first :: more) replacement (front ++ char :: back) =
      replaceAll (first :: more) replacement front ++
        char :: replaceAll (first :: more) replacement back := by
  obtain ⟨other, inner⟩ := not_or.mp (List.mem_cons.not.mp absent)
  rw [replaceAll_seam replacement (List.cons_ne_nil _ _) (seam_of_notMem inner front back),
    replaceAll_other replacement other]

/-- A pattern that repeats its first character nowhere separates the texts around it. -/
theorem replaceAll_at {first : Char} {more : List Char} (absent : first ∉ more)
    (front back : List Char) :
    replaceAll (first :: more) replacement (front ++ (first :: more ++ back)) =
      replaceAll (first :: more) replacement front ++
        (replacement ++ replaceAll (first :: more) replacement back) := by
  rw [List.cons_append,
    replaceAll_seam replacement (List.cons_ne_nil _ _) (seam_of_notMem absent front (more ++ back)),
    ← List.cons_append, replaceAll_append replacement (List.cons_ne_nil _ _)]

/-- A text that has nothing of the replacement at its end was there before. -/
theorem suffix_of_suffix_replaceAll (solid : pattern ≠ []) {mark : Char} {word text : List Char}
    (free : mark ∉ word) (inside : word <:+ replaceAll pattern [mark] text) : word <:+ text := by
  induction long : text.length using Nat.strong_induction_on generalizing text with
  | _ size ih =>
      rcases replaceAll_first [mark] solid text with ⟨-, stays⟩ | ⟨front, later, same, changed⟩
      · rwa [stays] at inside
      · have fewer : later.length < size := by
          have some := List.length_pos_iff.mpr solid
          rw [← long, same, List.length_append, List.length_append]
          omega
        have whole : later <:+ text := by
          rw [same]
          exact (List.suffix_append pattern later).trans (List.suffix_append front _)
        rw [changed] at inside
        have behind : word <:+ replaceAll pattern [mark] later := by
          have outer : mark :: replaceAll pattern [mark] later <:+
              front ++ ([mark] ++ replaceAll pattern [mark] later) := List.suffix_append front _
          rcases List.suffix_or_suffix_of_suffix inside outer with more | less
          · rcases List.suffix_cons_iff.mp more with all | short
            · exact absurd (all ▸ List.mem_cons_self) free
            · exact short
          · exact absurd (less.subset List.mem_cons_self) free
        exact (ih _ fewer behind rfl).trans whole

end Steps

/-- The authority of a URL ends before the first of these characters. -/
def ends (char : Char) : Bool :=
  char = '/' || char = '?' || char = '#'

/-- A text has none of the characters that end an authority. -/
def Unended (text : List Char) : Prop :=
  ∀ char ∈ text, ends char = false

theorem unended_of_all {text : List Char} (all : (text.all fun char => !ends char) = true) :
    Unended text := by
  intro char member
  simpa using List.all_eq_true.mp all char member

/-- The rest of a URL after its authority is empty or begins with the character that ended it. -/
def Ended (rest : List Char) : Prop :=
  ∀ char ∈ rest.head?, ends char = true

theorem takeWhile_cut {text rest : List Char} (unended : Unended text) (ended : Ended rest) :
    (text ++ rest).takeWhile (fun char => !ends char) = text := by
  have front : text.takeWhile (fun char => !ends char) = text :=
    List.takeWhile_eq_self_iff.mpr fun char member => by simp [unended char member]
  have back : rest.takeWhile (fun char => !ends char) = [] := by
    cases rest with
    | nil => rfl
    | cons char rest => simp [ended char rfl]
  rw [List.takeWhile_append, front, if_pos rfl, back, List.append_nil]

/-- A text is cut at its first end in one way. -/
theorem cut_unique {first second rest more : List Char} (firstUnended : Unended first)
    (secondUnended : Unended second) (restEnded : Ended rest) (moreEnded : Ended more)
    (same : first ++ rest = second ++ more) : first = second ∧ rest = more := by
  have front : first = second := by
    rw [← takeWhile_cut firstUnended restEnded, same, takeWhile_cut secondUnended moreEnded]
  subst front
  exact ⟨rfl, List.append_cancel_left same⟩

theorem exists_cut (text : List Char) :
    ∃ front rest, text = front ++ rest ∧ Unended front ∧ Ended rest := by
  refine ⟨text.takeWhile fun char => !ends char, text.dropWhile fun char => !ends char,
    List.takeWhile_append_dropWhile.symm, ?_, ?_⟩
  · intro char member
    simpa using List.mem_takeWhile_imp member
  · intro char member
    have stops := List.head?_dropWhile_not (fun char => !ends char) text
    rw [Option.mem_def.mp member] at stops
    simpa using stops

theorem ended_slashes (rest : List Char) : Ended ('/' :: '/' :: rest) := by
  intro char member
  obtain rfl := Option.some.inj member
  rfl

section Scheme

/-- All places of a scheme with its separator get another scheme. -/
def rescheme (old new text : List Char) : List Char :=
  replaceAll (old ++ ':' :: '/' :: '/' :: []) (new ++ ':' :: '/' :: '/' :: []) text

/-- The scheme that a text ends with is exchanged. -/
def renamed (old new text : List Char) : List Char :=
  if old ++ [':'] <:+ text then text.rdrop (old.length + 1) ++ new ++ [':'] else text

variable {old new : List Char} (unended : Unended old)

include unended

theorem unended_colon : Unended (old ++ [':']) := by
  intro char member
  rcases List.mem_append.mp member with inside | last
  · exact unended char inside
  · obtain rfl := List.mem_singleton.mp last
    rfl

theorem scheme_at {text rest : List Char} (free : Unended text) (ended : Ended rest) :
    old ++ ':' :: '/' :: '/' :: [] <+: text ++ rest ↔
      text = old ++ [':'] ∧ '/' :: '/' :: [] <+: rest := by
  constructor
  · rintro ⟨more, same⟩
    have parts : (old ++ [':']) ++ '/' :: '/' :: more = text ++ rest := by
      rw [← same]
      simp
    obtain ⟨rfl, rfl⟩ := cut_unique (unended_colon unended) free (ended_slashes more) ended parts
    exact ⟨rfl, more, rfl⟩
  · rintro ⟨rfl, more, rfl⟩
    exact ⟨more, by simp⟩

/-- Where no scheme stands before an end, the text up to this end stays. -/
theorem rescheme_through {text rest : List Char} (free : Unended text) (ended : Ended rest)
    (unmarked : ¬ (old ++ [':'] <:+ text ∧ '/' :: '/' :: [] <+: rest)) :
    rescheme old new (text ++ rest) = text ++ rescheme old new rest := by
  induction text with
  | nil => rfl
  | cons char text ih =>
      have apart : ¬ old ++ ':' :: '/' :: '/' :: [] <+: char :: (text ++ rest) := by
        intro here
        obtain ⟨same, slashes⟩ := (scheme_at unended free ended).mp here
        exact unmarked ⟨same ▸ List.suffix_rfl, slashes⟩
      have later := ih (fun other member => free other (List.mem_cons_of_mem char member))
        fun marked => unmarked ⟨marked.1.trans (List.suffix_cons char text), marked.2⟩
      rw [List.cons_append, rescheme, replaceAll_cons _ apart, ← rescheme, later, List.cons_append]

theorem rescheme_marked {text : List Char} (free : Unended text) (rest : List Char) :
    rescheme old new (text ++ old ++ ':' :: '/' :: '/' :: rest) =
      text ++ new ++ ':' :: '/' :: '/' :: rescheme old new rest := by
  induction text with
  | nil =>
      have parts : old ++ ':' :: '/' :: '/' :: rest = (old ++ ':' :: '/' :: '/' :: []) ++ rest := by simp
      rw [List.nil_append, rescheme, parts, replaceAll_append _ (by simp)]
      simp [rescheme]
  | cons char text ih =>
      have later := ih fun other member => free other (List.mem_cons_of_mem char member)
      have parts : char :: (text ++ old ++ ':' :: '/' :: '/' :: rest) =
          (char :: text ++ (old ++ [':'])) ++ '/' :: '/' :: rest := by simp
      have whole : Unended (char :: text ++ (old ++ [':'])) := fun other member =>
        (List.mem_append.mp member).elim (free other) (unended_colon unended other)
      have apart : ¬ old ++ ':' :: '/' :: '/' :: [] <+:
          char :: (text ++ old ++ ':' :: '/' :: '/' :: rest) := by
        rw [parts, scheme_at unended whole (ended_slashes rest)]
        rintro ⟨same, -⟩
        have sizes := congrArg List.length same
        simp only [List.length_append, List.length_cons] at sizes
        omega
      rw [List.cons_append, List.cons_append, rescheme, replaceAll_cons _ apart, ← rescheme, later]
      rfl

/-- A scheme before two slashes is exchanged, and any other text before them stays. -/
theorem rescheme_slashes {text : List Char} (free : Unended text) (rest : List Char)
    (solid : old ≠ []) :
    rescheme old new (text ++ '/' :: '/' :: rest) =
      renamed old new text ++ '/' :: '/' :: rescheme old new rest := by
  by_cases marked : old ++ [':'] <:+ text
  · obtain ⟨front, rfl⟩ := marked
    have shorter : (front ++ (old ++ [':'])).rdrop (old.length + 1) = front := by
      have size : old.length + 1 = (old ++ [':']).length := by simp
      rw [size, List.rdrop_append_length]
    have parts : front ++ (old ++ [':']) ++ '/' :: '/' :: rest =
        front ++ old ++ ':' :: '/' :: '/' :: rest := by simp
    rw [parts, rescheme_marked unended
      (fun char member => free char (List.mem_append_left _ member)), renamed,
      if_pos (List.suffix_append front _), shorter]
    simp
  · rw [renamed, if_neg marked, rescheme_through unended free (ended_slashes rest)
      fun both => marked both.1]
    obtain ⟨first, more, rfl⟩ := List.exists_cons_of_ne_nil solid
    have other : '/' ≠ first := by
      rintro rfl
      exact absurd (unended '/' List.mem_cons_self) (by decide)
    rw [rescheme, List.cons_append, replaceAll_other _ other, replaceAll_other _ other]
    rfl

/-- The end of an authority stays, and two slashes after it are not new. -/
theorem rescheme_ended (solid : old ≠ []) (fresh : Unended new) (some : new ≠ []) {rest : List Char}
    (ended : Ended rest) : Ended (rescheme old new rest) ∧ (rescheme old new rest = [] ↔ rest = []) ∧
      ('/' :: '/' :: [] <+: rescheme old new rest → '/' :: '/' :: [] <+: rest) := by
  cases rest with
  | nil => exact ⟨ended, Iff.rfl, fun slashes => slashes⟩
  | cons char rest =>
      have other : ¬ old ++ ':' :: '/' :: '/' :: [] <+: char :: rest := by
        obtain ⟨first, more, rfl⟩ := List.exists_cons_of_ne_nil solid
        intro here
        obtain rfl := (List.cons_prefix_cons.mp here).1
        have last := ended first rfl
        rw [unended first List.mem_cons_self] at last
        cases last
      have parts : rescheme old new (char :: rest) = char :: rescheme old new rest :=
        replaceAll_cons _ other
      rw [parts]
      refine ⟨fun head member => ended head member, by simp, ?_⟩
      intro slashes
      obtain ⟨rfl, second⟩ := List.cons_prefix_cons.mp slashes
      refine List.cons_prefix_cons.mpr ⟨rfl, ?_⟩
      by_cases here : old ++ ':' :: '/' :: '/' :: [] <+: rest
      · exfalso
        obtain ⟨later, rfl⟩ := here
        obtain ⟨first, more, rfl⟩ := List.exists_cons_of_ne_nil some
        rw [rescheme, replaceAll_append _ (by simp)] at second
        obtain rfl := (List.cons_prefix_cons.mp second).1
        exact absurd (fresh '/' List.mem_cons_self) (by decide)
      · cases rest with
        | nil => exact second
        | cons next rest =>
            have kept : rescheme old new (next :: rest) = next :: rescheme old new rest :=
              replaceAll_cons _ here
            rw [kept] at second
            obtain ⟨rfl, -⟩ := List.cons_prefix_cons.mp second
            exact List.cons_prefix_cons.mpr ⟨rfl, List.nil_prefix⟩

omit unended in
/-- What follows the last place of a scheme stays, and so does its colon. -/
theorem rescheme_kept (text : List Char) : rescheme old new text = text ∨
    ∃ front other rest, text = front ++ ':' :: rest ∧
      rescheme old new text = other ++ ':' :: rest := by
  induction size : text.length using Nat.strong_induction_on generalizing text with
  | _ count ih =>
      by_cases here : old ++ ':' :: '/' :: '/' :: [] <+: text
      · obtain ⟨later, rfl⟩ := here
        have fewer : later.length < count := by
          rw [← size]
          simp only [List.length_append, List.length_cons]
          omega
        have parts : rescheme old new (old ++ ':' :: '/' :: '/' :: [] ++ later) =
            new ++ ':' :: '/' :: '/' :: rescheme old new later := by
          rw [rescheme, replaceAll_append _ (by simp)]
          simp [rescheme]
        rw [parts]
        right
        rcases ih _ fewer later rfl with same | ⟨front, other, rest, same, kept⟩
        · exact ⟨old, new, '/' :: '/' :: later, by simp, by rw [same]⟩
        · refine ⟨old ++ ':' :: '/' :: '/' :: front, new ++ ':' :: '/' :: '/' :: other, rest, ?_, ?_⟩
          · rw [same]
            simp
          · rw [kept]
            simp
      · cases text with
        | nil => exact .inl rfl
        | cons char later =>
            have parts : rescheme old new (char :: later) = char :: rescheme old new later :=
              replaceAll_cons _ here
            rw [parts]
            rcases ih later.length (by rw [← size]; simp) later rfl with
              same | ⟨front, other, rest, same, kept⟩
            · exact .inl (by rw [same])
            · exact .inr ⟨char :: front, char :: other, rest, by rw [same, List.cons_append],
                by rw [kept, List.cons_append]⟩

omit unended in
theorem suffix_after_colon {part : List Char} (colonless : ':' ∉ part) (front rest : List Char) :
    part <:+ front ++ ':' :: rest ↔ part <:+ rest := by
  constructor
  · intro inside
    rcases List.suffix_or_suffix_of_suffix inside (List.suffix_append front (':' :: rest)) with
      short | whole
    · rcases List.suffix_cons_iff.mp short with rfl | shorter
      · exact absurd List.mem_cons_self colonless
      · exact shorter
    · exact absurd (whole.subset List.mem_cons_self) colonless
  · intro inside
    exact inside.trans ((List.suffix_cons ':' rest).trans (List.suffix_append front _))

omit unended in
/-- A part without a colon ends the text before the exchange where it ends the text after it. -/
theorem suffix_rescheme {part : List Char} (colonless : ':' ∉ part) (text more : List Char) :
    part <:+ rescheme old new text ++ more ↔ part <:+ text ++ more := by
  rcases @rescheme_kept old new text with same | ⟨front, other, rest, same, kept⟩
  · rw [same]
  · rw [kept, same, List.append_assoc, List.append_assoc, List.cons_append,
      suffix_after_colon colonless, suffix_after_colon colonless]

end Scheme

end Text
