import SynthHiresBridge.Posix.Resolve
import SynthHiresBridge.Daemon.Protocol

namespace Daemon

open Posix

/-- A snapshot holds what the owner granted. The one-shot paths serve a single action. -/
structure ScopeSnapshot where
  capabilities : List String
  alwaysAllowPaths : List PathBuf
  oneShotPaths : List PathBuf
  deriving DecidableEq

def ScopeSnapshot.ofScopes (scopes : Scopes) : ScopeSnapshot where
  capabilities := scopes.capabilities
  alwaysAllowPaths := scopes.alwaysAllowPaths.map PathBuf.ofText
  oneShotPaths := []

inductive GateDecision where
  | allow
  | requireConsent
  | deny
  deriving DecidableEq, Repr

structure CapabilityGate where
  snapshot : ScopeSnapshot
  deriving DecidableEq

namespace CapabilityGate

/-- A scope frame replaces the whole snapshot. -/
def ofScopes (scopes : Scopes) : CapabilityGate := ⟨.ofScopes scopes⟩

/-- An extra path joins the always-allow list. -/
def withAdditionalPath (gate : CapabilityGate) (path : PathBuf) : CapabilityGate :=
  ⟨{ gate.snapshot with alwaysAllowPaths := gate.snapshot.alwaysAllowPaths ++ [path] }⟩

/-- An approved path serves one action. -/
def withOneShotPath (gate : CapabilityGate) (path : PathBuf) : CapabilityGate :=
  ⟨{ gate.snapshot with oneShotPaths := gate.snapshot.oneShotPaths ++ [path] }⟩

def allows (gate : CapabilityGate) (capability : String) : Bool :=
  gate.snapshot.capabilities.any (· == capability)

def oneShot (gate : CapabilityGate) (path : PathBuf) : Bool :=
  gate.snapshot.oneShotPaths.any (·.sameAs path)

def pathMatchesAny (gate : CapabilityGate) (path : PathBuf) : Bool :=
  if path.hasParentDir then false
  else gate.snapshot.alwaysAllowPaths.any path.startsWith

/-- The lexical check denies a missing capability and a parent segment. -/
def checkPath (gate : CapabilityGate) (capability : String) (path : PathBuf) : GateDecision :=
  if !gate.allows capability then .deny
  else if path.hasParentDir then .deny
  else if gate.oneShot path then .allow
  else if gate.pathMatchesAny path then .allow
  else .requireConsent

/-- A real place is allowed under the canonical form of an always-allow path. -/
def canonicallyAllowed (gate : CapabilityGate) (fs : FileSystem) (real : Location) : Bool :=
  gate.snapshot.alwaysAllowPaths.any fun allowed =>
    match fs.canonicalize allowed with
    | .ok root => (PathBuf.ofLocation real).startsWith (PathBuf.ofLocation root)
    | .error _ => false

/-- The resolved check repeats the lexical one on the nearest ancestor that resolves, and it looks
at the one-shot paths only after an ancestor resolves. -/
def checkPathReal (gate : CapabilityGate) (fs : FileSystem) (capability : String)
    (path : PathBuf) : GateDecision :=
  match gate.checkPath capability path with
  | .allow => match fs.realAncestor path with
      | none => .requireConsent
      | some real =>
          if gate.oneShot path then .allow
          else if gate.pathMatchesAny (.ofLocation real) || gate.canonicallyAllowed fs real then
            .allow
          else .requireConsent
  | other => other

/-- A location is in scope under the given or the canonical form of an always-allow path. -/
def InScope (gate : CapabilityGate) (fs : FileSystem) (location : Location) : Prop :=
  ∃ allowed ∈ gate.snapshot.alwaysAllowPaths,
    (PathBuf.ofLocation location).startsWith allowed = true ∨
      ∃ root, fs.canonicalize allowed = .ok root ∧ root <+: location

@[simp] theorem withAdditionalPath_allows (gate : CapabilityGate) (path : PathBuf)
    (capability : String) : (gate.withAdditionalPath path).allows capability =
      gate.allows capability := rfl

@[simp] theorem withOneShotPath_allows (gate : CapabilityGate) (path : PathBuf)
    (capability : String) : (gate.withOneShotPath path).allows capability =
      gate.allows capability := rfl

@[simp] theorem withAdditionalPath_oneShot (gate : CapabilityGate) (added path : PathBuf) :
    (gate.withAdditionalPath added).oneShot path = gate.oneShot path := rfl

@[simp] theorem withOneShotPath_oneShot (gate : CapabilityGate) (approved path : PathBuf) :
    (gate.withOneShotPath approved).oneShot path =
      (gate.oneShot path || approved.sameAs path) := by
  simp [withOneShotPath, oneShot]

theorem pathMatchesAny_iff (gate : CapabilityGate) (path : PathBuf) :
    gate.pathMatchesAny path = true ↔ path.hasParentDir = false ∧
      ∃ allowed ∈ gate.snapshot.alwaysAllowPaths, path.startsWith allowed = true := by
  unfold pathMatchesAny
  split <;> simp_all

/-- The lexical check allows a granted capability on a path without parent segments that an
approval or a grant covers. -/
theorem checkPath_allow_iff (gate : CapabilityGate) (capability : String) (path : PathBuf) :
    gate.checkPath capability path = .allow ↔ gate.allows capability = true ∧
      path.hasParentDir = false ∧ (gate.oneShot path = true ∨ gate.pathMatchesAny path = true) := by
  unfold checkPath
  split
  · simp_all
  · split
    · simp_all
    · split
      · simp_all
      · split <;> simp_all

theorem canonicallyAllowed_iff (gate : CapabilityGate) (fs : FileSystem) (real : Location) :
    gate.canonicallyAllowed fs real = true ↔ ∃ allowed ∈ gate.snapshot.alwaysAllowPaths,
      ∃ root, fs.canonicalize allowed = .ok root ∧ root <+: real := by
  unfold canonicallyAllowed
  rw [List.any_eq_true]
  refine exists_congr fun allowed => and_congr_right fun _ => ?_
  cases fs.canonicalize allowed with
  | error _ => simp
  | ok root => simp [PathBuf.ofLocation_startsWith]

/-- The two forms of the grant on a real place are the scope. -/
theorem inScope_iff (gate : CapabilityGate) (fs : FileSystem) (real : Location) :
    gate.InScope fs real ↔ (gate.pathMatchesAny (.ofLocation real) ||
      gate.canonicallyAllowed fs real) = true := by
  rw [Bool.or_eq_true, pathMatchesAny_iff, canonicallyAllowed_iff]
  simp only [PathBuf.hasParentDir_ofLocation, true_and, InScope, ← exists_or, ← and_or_left]

instance (gate : CapabilityGate) (fs : FileSystem) (real : Location) :
    Decidable (gate.InScope fs real) :=
  decidable_of_iff _ (inScope_iff gate fs real).symm

/-- The resolved check allows what the lexical check allows when an ancestor resolves and either an
approval names the path or the real place is in scope. -/
theorem checkPathReal_allow_iff (gate : CapabilityGate) (fs : FileSystem) (capability : String)
    (path : PathBuf) :
    gate.checkPathReal fs capability path = .allow ↔
      gate.checkPath capability path = .allow ∧ ∃ real, fs.realAncestor path = some real ∧
        (gate.oneShot path = true ∨ gate.InScope fs real) := by
  unfold checkPathReal
  cases gate.checkPath capability path with
  | requireConsent => simp
  | deny => simp
  | allow =>
      cases fs.realAncestor path with
      | none => simp
      | some real =>
          simp only [true_and, Option.some.injEq, exists_eq_left', inScope_iff]
          by_cases approved : gate.oneShot path = true
          · simp [approved]
          · cases gate.pathMatchesAny (.ofLocation real) <;> simp [approved]

/-- The scope of a location covers everything below it. -/
theorem InScope.below {gate : CapabilityGate} {fs : FileSystem} {upper lower : Location}
    (within : gate.InScope fs upper) (above : upper <+: lower) : gate.InScope fs lower := by
  obtain ⟨allowed, member, given | ⟨root, resolved, covers⟩⟩ := within
  · exact ⟨allowed, member, .inl (PathBuf.startsWith_trans given
      ((PathBuf.ofLocation_startsWith lower upper).mpr above))⟩
  · exact ⟨allowed, member, .inr ⟨root, resolved, covers.trans above⟩⟩

/-- A longer always-allow list keeps the scope. -/
theorem InScope.withAdditionalPath {gate : CapabilityGate} {fs : FileSystem} {real : Location}
    (within : gate.InScope fs real) (path : PathBuf) :
    (gate.withAdditionalPath path).InScope fs real := by
  obtain ⟨allowed, member, covers⟩ := within
  exact ⟨allowed, List.mem_append_left _ member, covers⟩

/-- A longer always-allow list keeps every lexical grant. -/
theorem checkPath_withAdditionalPath (gate : CapabilityGate) (capability : String)
    (path added : PathBuf) (allowed : gate.checkPath capability path = .allow) :
    (gate.withAdditionalPath added).checkPath capability path = .allow := by
  rw [checkPath_allow_iff] at allowed ⊢
  obtain ⟨granted, forward, approved | covered⟩ := allowed
  · exact ⟨granted, forward, .inl approved⟩
  · rw [pathMatchesAny_iff] at covered
    obtain ⟨-, entry, member, covers⟩ := covered
    refine ⟨granted, forward, .inr ((pathMatchesAny_iff _ path).mpr ⟨forward, entry, ?_, covers⟩)⟩
    exact List.mem_append_left _ member

/-- A longer always-allow list keeps every resolved grant. -/
theorem checkPathReal_withAdditionalPath (gate : CapabilityGate) (fs : FileSystem)
    (capability : String) (path added : PathBuf)
    (allowed : gate.checkPathReal fs capability path = .allow) :
    (gate.withAdditionalPath added).checkPathReal fs capability path = .allow := by
  rw [checkPathReal_allow_iff] at allowed ⊢
  obtain ⟨lexical, real, found, approved | within⟩ := allowed
  · exact ⟨checkPath_withAdditionalPath gate capability path added lexical, real, found,
      .inl approved⟩
  · exact ⟨checkPath_withAdditionalPath gate capability path added lexical, real, found,
      .inr (within.withAdditionalPath added)⟩

/-- The resolved check never allows what the lexical check refuses. -/
theorem checkPath_of_checkPathReal (gate : CapabilityGate) (fs : FileSystem) (capability : String)
    (path : PathBuf) (allowed : gate.checkPathReal fs capability path = .allow) :
    gate.checkPath capability path = .allow :=
  ((checkPathReal_allow_iff gate fs capability path).mp allowed).1

/-- An approval of a path counts once an ancestor of it resolves. -/
theorem checkPathReal_withOneShotPath (gate : CapabilityGate) (fs : FileSystem)
    (capability : String) (path : PathBuf) (granted : gate.allows capability = true)
    (forward : path.hasParentDir = false) :
    (gate.withOneShotPath path).checkPathReal fs capability path = .allow ↔
      (fs.realAncestor path).isSome := by
  have lexical : (gate.withOneShotPath path).checkPath capability path = .allow := by
    rw [checkPath_allow_iff]
    exact ⟨granted, forward, .inl (by simp)⟩
  rw [checkPathReal_allow_iff]
  simp [lexical, Option.isSome_iff_exists]

end CapabilityGate

end Daemon
