import SynthHiresBridge.Proof.ChatSnapshot

namespace Daemon

/-- All stamps keep their sign as column values, or all of them lose it. -/
def OneHalf (stamps : List UInt64) : Prop :=
  (∀ stamp ∈ stamps, stamp.toNat < 2 ^ 63) ∨ ∀ stamp ∈ stamps, 2 ^ 63 ≤ stamp.toNat

/-- In one half of the range the column keeps the order of the wire. -/
theorem OneHalf.castI64_le {stamps : List UInt64} (half : OneHalf stamps) {first second : UInt64}
    (one : first ∈ stamps) (two : second ∈ stamps) (le : castI64 first ≤ castI64 second) :
    first ≤ second := by
  rw [UInt64.le_iff_toNat_le]
  rw [castI64_eq, castI64_eq] at le
  rcases half with low | high
  · have below := low first one
    have under := low second two
    split at le <;> omega
  · have above := high first one
    have beyond := high second two
    split at le <;> split at le <;> omega

/-- A number in the lower half comes after every number of the upper one as a column value. -/
theorem castI64_lt_of_halves {low high : UInt64} (below : low.toNat < 2 ^ 63)
    (above : 2 ^ 63 ≤ high.toNat) : castI64 high < castI64 low := by
  have bound := high.toNat_lt
  rw [castI64_of_lt below, castI64_eq, if_neg (by omega)]
  omega

theorem castI64_injective {first second : UInt64} (same : castI64 first = castI64 second) :
    first = second := by
  have bound := first.toNat_lt
  have limit := second.toNat_lt
  rw [← UInt64.toNat_inj]
  rw [castI64_eq, castI64_eq] at same
  split at same <;> split at same <;> omega

section Latest

variable {Entry Row : Type} (wire : Entry → UInt64) (toRow : Entry → Row) (column : Row → Int)

/-- Whatever the order of the entries, the row of one with the greatest stamp is stored at the end. -/
def KeepsLatest (entries : List Entry) (finalRow : List Entry → Option Row) : Prop :=
  ∀ order : List Entry, order.Perm entries → ∃ latest ∈ entries,
    (∀ other ∈ entries, wire other ≤ wire latest) ∧ finalRow order = some (toRow latest)

variable {wire toRow column} (cast : ∀ entry, column (toRow entry) = castI64 (wire entry))

include cast

/-- A table keeps the latest row exactly when the stamps lie in one half of the range. -/
theorem keepsLatest_iff {Key : Type} [DecidableEq Key] {table : Table Key Row} {key : Key}
    (missing : table.lookup key = none) {entries : List Entry} (any : entries ≠ []) :
    KeepsLatest wire toRow entries (fun order =>
        ((order.map toRow).foldl (fun held row => held.putLatest column key row) table).lookup key) ↔
      OneHalf (entries.map wire) := by
  have kept : ∀ order : List Entry, order.Perm entries → ∃ last ∈ entries,
      ((order.map toRow).foldl (fun held row => held.putLatest column key row) table).lookup key =
        some (toRow last) ∧ ∀ other ∈ entries, castI64 (wire other) ≤ castI64 (wire last) := by
    intro order perm
    have some_row : order.map toRow ≠ [] := by
      rw [Ne, List.map_eq_nil_iff]
      rintro rfl
      exact any perm.symm.eq_nil
    obtain ⟨row, member, held, greatest⟩ := Table.lookup_foldl_putLatest missing column some_row
    obtain ⟨last, inside, rfl⟩ := List.mem_map.mp member
    refine ⟨last, perm.mem_iff.mp inside, held, fun other listed => ?_⟩
    rw [← cast, ← cast]
    exact greatest _ (List.mem_map_of_mem (perm.mem_iff.mpr listed))
  constructor
  · intro keeps
    obtain ⟨latest, -, most, stored⟩ := keeps entries (List.Perm.refl entries)
    obtain ⟨last, -, held, greatest⟩ := kept entries (List.Perm.refl entries)
    have same : wire last = wire latest := by
      apply castI64_injective
      rw [← cast, ← cast, Option.some.inj (held.symm.trans stored)]
    by_contra mixed
    obtain ⟨⟨low, inside, below⟩, ⟨high, member, above⟩⟩ :
        (∃ low ∈ entries, (wire low).toNat < 2 ^ 63) ∧
          ∃ high ∈ entries, 2 ^ 63 ≤ (wire high).toNat := by
      simpa [OneHalf, and_comm] using mixed
    have top : 2 ^ 63 ≤ (wire last).toNat := by
      rw [same]
      exact above.trans (UInt64.le_iff_toNat_le.mp (most high member))
    have behind := castI64_lt_of_halves below top
    exact absurd (greatest low inside) (not_le.mpr behind)
  · intro half order perm
    obtain ⟨last, member, held, greatest⟩ := kept order perm
    refine ⟨last, member, fun other listed => ?_, held⟩
    exact half.castI64_le (List.mem_map_of_mem listed) (List.mem_map_of_mem member)
      (greatest other listed)

end Latest

namespace ChatStore

/-- Artifacts with one id go through the rows of that id. -/
theorem foldl_upsertArtifact {id : String} (artifacts : List ChatSyncArtifact)
    (same : ∀ artifact ∈ artifacts, artifact.id = id) (store : ChatStore) :
    (artifacts.foldl upsertArtifact store).artifacts =
      (artifacts.map ChatSyncArtifact.toRow).foldl
        (fun held row => held.putLatest ArtifactRow.updatedAt id row) store.artifacts := by
  induction artifacts generalizing store with
  | nil => rfl
  | cons artifact rest ih =>
      obtain ⟨own, others⟩ := List.forall_mem_cons.mp same
      rw [List.foldl_cons, ih others, List.map_cons, List.foldl_cons, ← own]
      rfl

/-- Projects with one id go through the rows of that id. -/
theorem foldl_upsertProject {id : String} (projects : List ChatSyncProject)
    (same : ∀ project ∈ projects, project.id = id) (store : ChatStore) :
    (projects.foldl upsertProject store).projects =
      (projects.map ChatSyncProject.toRow).foldl
        (fun held row => held.putLatest ProjectRow.updatedAt id row) store.projects := by
  induction projects generalizing store with
  | nil => rfl
  | cons project rest ih =>
      obtain ⟨own, others⟩ := List.forall_mem_cons.mp same
      rw [List.foldl_cons, ih others, List.map_cons, List.foldl_cons, ← own]
      rfl

end ChatStore

def ChatSyncArtifact.stamp (artifact : ChatSyncArtifact) : UInt64 := artifact.updatedAt.getD 0

def ChatSyncProject.stamp (project : ChatSyncProject) : UInt64 := project.updatedAt.getD 0

namespace ChatStore

/-- Artifacts with one id leave the row of the latest one in an empty store, whatever their order. -/
def KeepsLatestArtifact (id : String) (artifacts : List ChatSyncArtifact) : Prop :=
  KeepsLatest ChatSyncArtifact.stamp ChatSyncArtifact.toRow artifacts fun order =>
    (order.foldl upsertArtifact empty).artifacts.lookup id

/-- Projects with one id leave the row of the latest one in an empty store, whatever their order. -/
def KeepsLatestProject (id : String) (projects : List ChatSyncProject) : Prop :=
  KeepsLatest ChatSyncProject.stamp ChatSyncProject.toRow projects fun order =>
    (order.foldl upsertProject empty).projects.lookup id

/-- The last writer wins exactly when the stamps lie in one half of the range. -/
theorem last_writer_iff (id : String) :
    (∀ artifacts : List ChatSyncArtifact, artifacts ≠ [] →
      (∀ artifact ∈ artifacts, artifact.id = id) →
      (KeepsLatestArtifact id artifacts ↔ OneHalf (artifacts.map ChatSyncArtifact.stamp))) ∧
    (∀ projects : List ChatSyncProject, projects ≠ [] → (∀ project ∈ projects, project.id = id) →
      (KeepsLatestProject id projects ↔ OneHalf (projects.map ChatSyncProject.stamp))) := by
  constructor
  · intro artifacts any same
    have cast : ∀ artifact : ChatSyncArtifact,
        artifact.toRow.updatedAt = castI64 artifact.stamp := fun _ => rfl
    rw [← keepsLatest_iff cast (AList.lookup_empty id) any]
    apply forall₂_congr
    intro order perm
    beta_reduce
    rw [foldl_upsertArtifact order fun artifact member => same artifact (perm.mem_iff.mp member)]
    rfl
  · intro projects any same
    have cast : ∀ project : ChatSyncProject,
        project.toRow.updatedAt = castI64 project.stamp := fun _ => rfl
    rw [← keepsLatest_iff cast (AList.lookup_empty id) any]
    apply forall₂_congr
    intro order perm
    beta_reduce
    rw [foldl_upsertProject order fun project member => same project (perm.mem_iff.mp member)]
    rfl

/-- An artifact with a later stamp replaces the earlier one in either order. -/
theorem last_writer_artifact :
    KeepsLatestArtifact "a" [⟨"a", none, none, none, "uno", some 1⟩,
        ⟨"a", none, none, none, "dos", some 2⟩] ∧
      KeepsLatestProject "p" [⟨"p", none, none, some 1⟩] := by
  constructor
  · exact ((last_writer_iff "a").1 _ (by simp) (by simp)).mpr
      (.inl (by simp [ChatSyncArtifact.stamp]))
  · exact ((last_writer_iff "p").2 _ (by simp) (by simp)).mpr
      (.inl (by simp [ChatSyncProject.stamp]))

/-- A stamp of `2 ^ 63` is stored as a negative number, so an older row stays. -/
theorem last_writer_wraps :
    ¬ (∀ (id : String) (artifacts : List ChatSyncArtifact), artifacts ≠ [] →
        (∀ artifact ∈ artifacts, artifact.id = id) →
        (artifacts.map ChatSyncArtifact.stamp).Nodup → KeepsLatestArtifact id artifacts) ∧
      ¬ ∀ (id : String) (projects : List ChatSyncProject), projects ≠ [] →
        (∀ project ∈ projects, project.id = id) →
        (projects.map ChatSyncProject.stamp).Nodup → KeepsLatestProject id projects := by
  constructor
  · intro claim
    obtain ⟨latest, member, most, stored⟩ := claim "a"
      [⟨"a", none, none, none, "uno", some 1⟩, ⟨"a", none, none, none, "dos", some (2 ^ 63)⟩]
      (by simp) (by simp) (by decide +kernel) _ (List.Perm.refl _)
    rcases List.mem_pair.mp member with rfl | rfl
    · exact absurd (most _ (List.mem_cons_of_mem _ List.mem_cons_self)) (by decide +kernel)
    · exact absurd stored (by decide +kernel)
  · intro claim
    obtain ⟨latest, member, most, stored⟩ := claim "p"
      [⟨"p", some "uno", none, some 1⟩, ⟨"p", some "dos", none, some (2 ^ 63)⟩]
      (by simp) (by simp) (by decide +kernel) _ (List.Perm.refl _)
    rcases List.mem_pair.mp member with rfl | rfl
    · exact absurd (most _ (List.mem_cons_of_mem _ List.mem_cons_self)) (by decide +kernel)
    · exact absurd stored (by decide +kernel)

end ChatStore

end Daemon
