import SynthHiresBridge.Daemon.FoldedGate

namespace Daemon

open Posix

namespace Components

/-- A component in small letters. -/
def fold (component : String) : String := String.ofList (Text.lower component.toList)

/-- A capital letter of ASCII and its small letter. -/
def Capital (upper lower : Char) : Prop :=
  'A'.toNat ≤ upper.toNat ∧ upper.toNat ≤ 'Z'.toNat ∧ lower.toNat = upper.toNat + 32

/-- Two characters are the same up to the case of the letters of ASCII. -/
def SameLetter (first second : Char) : Prop :=
  first = second ∨ Capital first second ∨ Capital second first

/-- Two components are equal up to the case of the letters of ASCII. -/
def CaseVariant (first second : String) : Prop :=
  List.Forall₂ SameLetter first.toList second.toList

theorem eqIgnoreAsciiCase_iff (a b : String) : eqIgnoreAsciiCase a b = true ↔ fold a = fold b := by
  rw [eqIgnoreAsciiCase, beq_iff_eq, fold, fold, String.ofList_inj]

theorem toNat_toLower (char : Char) : char.toLower.toNat =
    if 65 ≤ char.toNat ∧ char.toNat ≤ 90 then char.toNat + 32 else char.toNat := by
  by_cases upper : 65 ≤ char.toNat ∧ char.toNat ≤ 90
  · have inside : char.val ≥ 'A'.val ∧ char.val ≤ 'Z'.val := upper
    rw [if_pos upper]
    delta Char.toLower
    rw [dif_pos inside]
    have room : char.val.toNat + 32 < 2 ^ 32 := by
      have code : char.val.toNat ≤ 90 := upper.2
      omega
    exact (UInt32.toNat_add _ _).trans (Nat.mod_eq_of_lt room)
  · have outside : ¬(char.val ≥ 'A'.val ∧ char.val ≤ 'Z'.val) := upper
    rw [if_neg upper]
    delta Char.toLower
    rw [dif_neg outside]

theorem toLower_eq_iff (first second : Char) :
    first.toLower = second.toLower ↔ SameLetter first second := by
  have low : 'A'.toNat = 65 := rfl
  have high : 'Z'.toNat = 90 := rfl
  rw [← Char.toNat_inj, toNat_toLower, toNat_toLower, SameLetter, ← Char.toNat_inj, Capital, Capital,
    low, high]
  split <;> split <;> omega

theorem fold_eq_iff (first second : String) : fold first = fold second ↔ CaseVariant first second := by
  rw [fold, fold, String.ofList_inj, Text.lower, Text.lower, CaseVariant, ← List.forall₂_eq_eq_eq,
    List.forall₂_map_left_iff, List.forall₂_map_right_iff]
  simp only [toLower_eq_iff]

theorem SameLetter.symm {first second : Char} (same : SameLetter first second) :
    SameLetter second first := by
  rcases same with equal | up | down
  · exact .inl equal.symm
  · exact .inr (.inr up)
  · exact .inr (.inl down)

theorem CaseVariant.symm {first second : String} (variant : CaseVariant first second) :
    CaseVariant second first :=
  variant.flip.imp fun _ _ => SameLetter.symm

/-- Small letters make no parent component of another one. -/
theorem fold_eq_parent (component : String) : fold component = ".." ↔ component = ".." := by
  constructor
  · intro folded
    have letters : component.toList.map Char.toLower = ['.', '.'] := by
      rw [← String.ofList_inj]
      exact folded
    obtain ⟨first, rest, spelled, one, letters⟩ := List.map_eq_cons_iff.mp letters
    obtain ⟨second, rest, rfl, two, letters⟩ := List.map_eq_cons_iff.mp letters
    rw [Text.toLower_eq (by decide) one, Text.toLower_eq (by decide) two,
      List.map_eq_nil_iff.mp letters] at spelled
    rw [← @String.ofList_toList component, spelled]
  · rintro rfl
    decide

/-- The loop compares the folded components. -/
theorem pathStartsWithIgnoringCase_iff (path base : Components) :
    pathStartsWithIgnoringCase path base = true ↔ base.map fold <+: path.map fold := by
  induction path generalizing base with
  | nil =>
      rw [pathStartsWithIgnoringCase, List.isEmpty_iff, List.map_nil, List.prefix_nil, List.map_eq_nil_iff]
  | cons component path ih =>
      cases base with
      | nil => simp [pathStartsWithIgnoringCase]
      | cons expected base =>
          rw [pathStartsWithIgnoringCase, List.map_cons, List.map_cons, List.cons_prefix_cons, ← ih,
            @eq_comm _ (fold expected), ← eqIgnoreAsciiCase_iff]
          cases eqIgnoreAsciiCase component expected <;> simp

theorem pathStartsWithIgnoringCase_refl (path : Components) :
    pathStartsWithIgnoringCase path path = true :=
  (pathStartsWithIgnoringCase_iff path path).mpr List.prefix_rfl

theorem pathStartsWithIgnoringCase_trans {path middle base : Components}
    (lower : pathStartsWithIgnoringCase path middle = true)
    (upper : pathStartsWithIgnoringCase middle base = true) :
    pathStartsWithIgnoringCase path base = true := by
  rw [pathStartsWithIgnoringCase_iff] at lower upper ⊢
  exact upper.trans lower

theorem pathStartsWithIgnoringCase_of_prefix {path base : Components} (exactly : base <+: path) :
    pathStartsWithIgnoringCase path base = true :=
  (pathStartsWithIgnoringCase_iff path base).mpr (exactly.map fold)

/-- Mutual containment is equality of the folded components. -/
theorem pathsEqual_windows_iff (path other : Components) :
    pathsEqual .windows path other = true ↔ path.map fold = other.map fold := by
  rw [pathsEqual, Bool.and_eq_true, pathStartsWithIgnoringCase_iff, pathStartsWithIgnoringCase_iff]
  constructor
  · rintro ⟨below, above⟩
    exact above.eq_of_length_le below.length_le
  · intro same
    rw [same]
    exact ⟨List.prefix_rfl, List.prefix_rfl⟩

/-- The components of the base match those of the path one by one. -/
theorem pathStartsWithIgnoringCase_iff_get (path base : Components) :
    pathStartsWithIgnoringCase path base = true ↔ ∃ _ : base.length ≤ path.length,
      ∀ (index : Nat) (_ : index < base.length), CaseVariant path[index] base[index] := by
  rw [pathStartsWithIgnoringCase_iff, List.prefix_iff_getElem]
  simp only [List.length_map, List.getElem_map, fold_eq_iff]
  exact exists_congr fun _ => forall₂_congr fun _ _ => ⟨CaseVariant.symm, CaseVariant.symm⟩

/-- A component that matches is as long as the one of the base. -/
theorem whole_components {path base : Components}
    (starts : pathStartsWithIgnoringCase path base = true) : ∃ front rest, path = front ++ rest ∧
      List.Forall₂ (fun component expected => component.toList.length = expected.toList.length)
        front base := by
  obtain ⟨fits, variants⟩ := (pathStartsWithIgnoringCase_iff_get path base).mp starts
  refine ⟨path.take base.length, path.drop base.length, (List.take_append_drop _ _).symm, ?_⟩
  rw [List.forall₂_iff_get]
  refine ⟨List.length_take_of_le fits, fun index _ inside => ?_⟩
  have variant := variants index inside
  simp only [List.get_eq_getElem, List.getElem_take]
  exact variant.length_eq

theorem hasParentDir_fold (path : Components) :
    Components.hasParentDir (path.map fold) = Components.hasParentDir path := by
  rw [hasParentDir, hasParentDir, List.any_map]
  congr 1
  funext component
  exact Bool.eq_iff_iff.mpr (by simp [fold_eq_parent])

end Components

/-- The scopes and the path in small letters. -/
def ComponentScopes.fold (scopes : ComponentScopes) : ComponentScopes where
  capabilities := scopes.capabilities
  alwaysAllowPaths := scopes.alwaysAllowPaths.map (·.map Components.fold)
  oneShotPaths := scopes.oneShotPaths.map (·.map Components.fold)

namespace ComponentScopes

open Components

/-- The folded comparison is the exact one on small letters. -/
theorem checkPath_windows (scopes : ComponentScopes) (capability : String) (path : Components) :
    scopes.checkPath .windows capability path =
      scopes.fold.checkPath .other capability (path.map Components.fold) := by
  have approved : (scopes.oneShotPaths.any fun approved => approved.pathsEqual .windows path) =
      scopes.fold.oneShotPaths.any fun approved => approved.pathsEqual .other (path.map Components.fold) := by
    rw [fold, List.any_map]
    congr 1
    funext approved
    exact Bool.eq_iff_iff.mpr (by rw [pathsEqual_windows_iff]; simp [pathsEqual])
  have covered : scopes.pathMatchesAny .windows path =
      scopes.fold.pathMatchesAny .other (path.map Components.fold) := by
    rw [pathMatchesAny, pathMatchesAny, hasParentDir_fold, fold, List.any_map]
    congr 2
    funext base
    exact Bool.eq_iff_iff.mpr (by
      rw [Components.pathStartsWith, pathStartsWithIgnoringCase_iff]
      simp [Components.pathStartsWith])
  rw [checkPath, checkPath, hasParentDir_fold, approved, covered]
  rfl

theorem checkPath_deny_iff (target : Target) (scopes : ComponentScopes) (capability : String)
    (path : Components) : scopes.checkPath target capability path = .deny ↔
      scopes.allows capability = false ∨ path.hasParentDir = true := by
  unfold checkPath
  split
  · simp_all
  · split
    · simp_all
    · split
      · simp_all
      · split <;> simp_all

theorem checkPath_allow_iff (target : Target) (scopes : ComponentScopes) (capability : String)
    (path : Components) : scopes.checkPath target capability path = .allow ↔
      scopes.allows capability = true ∧ path.hasParentDir = false ∧
        ((∃ approved ∈ scopes.oneShotPaths, approved.pathsEqual target path = true) ∨
          ∃ base ∈ scopes.alwaysAllowPaths, path.pathStartsWith target base = true) := by
  unfold checkPath pathMatchesAny
  split
  · simp_all
  · split
    · simp_all
    · split
      · simp_all
      · split <;> simp_all

/-- An exact grant is a folded grant. -/
theorem checkPath_widens (scopes : ComponentScopes) (capability : String) (path : Components)
    (allowed : scopes.checkPath .other capability path = .allow) :
    scopes.checkPath .windows capability path = .allow := by
  rw [checkPath_allow_iff] at allowed ⊢
  obtain ⟨granted, forward, ⟨approved, member, same⟩ | ⟨base, member, covers⟩⟩ := allowed
  · refine ⟨granted, forward, .inl ⟨approved, member, ?_⟩⟩
    rw [pathsEqual_windows_iff, eq_of_beq same]
  · refine ⟨granted, forward, .inr ⟨base, member, ?_⟩⟩
    exact pathStartsWithIgnoringCase_of_prefix (List.isPrefixOf_iff_prefix.mp covers)

end ComponentScopes

namespace Components

/-- The folded prefix is an order on the components up to case that only widens the exact one. -/
theorem path_prefix_sound :
    (∀ path base : Components, pathStartsWithIgnoringCase path base = true ↔
      ∃ _ : base.length ≤ path.length,
        ∀ (index : Nat) (_ : index < base.length), CaseVariant path[index] base[index]) ∧
    (∀ path, pathStartsWithIgnoringCase path path = true) ∧
    (∀ path middle base, pathStartsWithIgnoringCase path middle = true →
      pathStartsWithIgnoringCase middle base = true →
      pathStartsWithIgnoringCase path base = true) ∧
    Equivalence (fun path other : Components => pathsEqual .windows path other = true) ∧
    (∀ path other, pathsEqual .windows path other = true ↔
      pathStartsWithIgnoringCase path other = true ∧
        pathStartsWithIgnoringCase other path = true) ∧
    (∀ path base : Components, pathStartsWithIgnoringCase path base = true →
      ∃ front rest, path = front ++ rest ∧
        List.Forall₂ (fun component expected => component.toList.length = expected.toList.length)
          front base) ∧
    (∀ path base : Components, base <+: path → pathStartsWithIgnoringCase path base = true) ∧
    ∀ (scopes : ComponentScopes) (capability : String) (path : Components),
      (scopes.checkPath .windows capability path = .deny ↔
        scopes.checkPath .other capability path = .deny) ∧
      (scopes.checkPath .other capability path = .allow →
        scopes.checkPath .windows capability path = .allow) ∧
      scopes.checkPath .windows capability path =
        scopes.fold.checkPath .other capability (path.map fold) := by
  refine ⟨pathStartsWithIgnoringCase_iff_get, pathStartsWithIgnoringCase_refl,
    fun _ _ _ => pathStartsWithIgnoringCase_trans, ?_, ?_, ?_,
    fun _ _ => pathStartsWithIgnoringCase_of_prefix, ?_⟩
  · simp only [pathsEqual_windows_iff]
    exact ⟨fun _ => rfl, Eq.symm, Eq.trans⟩
  · intro path other
    rw [pathsEqual, Bool.and_eq_true]
  · exact fun path base => whole_components
  · intro scopes capability path
    refine ⟨?_, scopes.checkPath_widens capability path, scopes.checkPath_windows capability path⟩
    rw [ComponentScopes.checkPath_deny_iff, ComponentScopes.checkPath_deny_iff]

/-- The name of a component is not the text of another kind of component. -/
def Proper : Component → Prop
  | .normal name => name ≠ "/" ∧ name ≠ "." ∧ name ≠ ".."
  | _ => True

theorem asOsStr_injective {first second : Component} (one : Proper first) (two : Proper second)
    (same : asOsStr first = asOsStr second) : first = second := by
  cases first <;> cases second <;> simp_all [Proper, asOsStr]

theorem map_asOsStr_prefix {path base : List Component} (one : ∀ component ∈ path, Proper component)
    (two : ∀ component ∈ base, Proper component) :
    base.map asOsStr <+: path.map asOsStr ↔ base <+: path := by
  induction base generalizing path with
  | nil => simp
  | cons expected base ih =>
      cases path with
      | nil => simp
      | cons component path =>
          rw [List.forall_mem_cons] at one two
          rw [List.map_cons, List.map_cons, List.cons_prefix_cons, List.cons_prefix_cons,
            ih one.2 two.2]
          exact and_congr_left fun _ =>
            ⟨asOsStr_injective two.1 one.1, congrArg asOsStr⟩

end Components

/-- Every name that a gate and a path hold is one that a parsed path can hold. -/
def CapabilityGate.Proper (gate : CapabilityGate) : Prop :=
  (∀ path ∈ gate.snapshot.alwaysAllowPaths, ∀ component ∈ path.components, Components.Proper component) ∧
    ∀ path ∈ gate.snapshot.oneShotPaths, ∀ component ∈ path.components, Components.Proper component

theorem Components.any_congr_mem {α : Type} {list : List α} {first second : α → Bool}
    (same : ∀ item ∈ list, first item = second item) : list.any first = list.any second := by
  induction list with
  | nil => rfl
  | cons item rest ih =>
      obtain ⟨own, later⟩ := List.forall_mem_cons.mp same
      rw [List.any_cons, List.any_cons, own, ih later]

theorem Components.hasParentDir_ofPath {path : PathBuf}
    (proper : ∀ component ∈ path.components, Components.Proper component) :
    (Components.ofPath path).hasParentDir = path.hasParentDir := by
  rw [Components.hasParentDir, Components.ofPath, List.any_map, PathBuf.hasParentDir]
  apply Components.any_congr_mem
  intro component member
  have own := proper component member
  cases component <;> simp_all [Components.Proper, Components.asOsStr]

theorem Components.pathStartsWith_ofPath {path base : PathBuf}
    (one : ∀ component ∈ path.components, Components.Proper component)
    (two : ∀ component ∈ base.components, Components.Proper component) :
    (Components.ofPath path).pathStartsWith .other (Components.ofPath base) = path.startsWith base := by
  apply Bool.eq_iff_iff.mpr
  rw [Components.pathStartsWith, List.isPrefixOf_iff_prefix, Components.ofPath, Components.ofPath,
    Components.map_asOsStr_prefix one two, PathBuf.startsWith_iff]

theorem Components.pathsEqual_ofPath {path other : PathBuf}
    (one : ∀ component ∈ path.components, Components.Proper component)
    (two : ∀ component ∈ other.components, Components.Proper component) :
    (Components.ofPath path).pathsEqual .other (Components.ofPath other) = path.sameAs other := by
  apply Bool.eq_iff_iff.mpr
  rw [Components.pathsEqual, PathBuf.sameAs, beq_iff_eq, beq_iff_eq]
  constructor
  · intro same
    have alike : path.components.map asOsStr = other.components.map asOsStr := same
    have below := (Components.map_asOsStr_prefix two one).mp (alike ▸ List.prefix_rfl)
    have above := (Components.map_asOsStr_prefix one two).mp (alike ▸ List.prefix_rfl)
    exact below.eq_of_length_le above.length_le
  · exact congrArg (List.map Components.asOsStr)

/-- Off Windows the gate's verdict is the exact one on the texts of the components. -/
theorem CapabilityGate.checkPath_components {gate : CapabilityGate} {path : PathBuf}
    (proper : gate.Proper) (own : ∀ component ∈ path.components, Components.Proper component)
    (capability : String) :
    gate.components.checkPath .other capability (Components.ofPath path) =
      gate.checkPath capability path := by
  have approved : (gate.components.oneShotPaths.any fun approved =>
      approved.pathsEqual .other (Components.ofPath path)) = gate.oneShot path := by
    rw [components, List.any_map]
    apply Components.any_congr_mem
    intro approved member
    exact Components.pathsEqual_ofPath (proper.2 approved member) own
  have covered : gate.components.pathMatchesAny .other (Components.ofPath path) =
      gate.pathMatchesAny path := by
    rw [ComponentScopes.pathMatchesAny, Components.hasParentDir_ofPath own, pathMatchesAny,
      components, List.any_map]
    congr 1
    apply Components.any_congr_mem
    intro base member
    exact Components.pathStartsWith_ofPath own (proper.1 base member)
  rw [ComponentScopes.checkPath, Components.hasParentDir_ofPath own, approved, covered]
  rfl

end Daemon
