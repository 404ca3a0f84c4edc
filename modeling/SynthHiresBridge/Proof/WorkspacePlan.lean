import SynthHiresBridge.Daemon.LspOps
import SynthHiresBridge.Data.Fallible

namespace Daemon

open Json Posix

namespace LspOps

/-- A target is planned with the text of its file and one range for each of its edits. -/
structure Planned (gate : CapabilityGate) (fs : FileSystem) (target : String × List Value)
    (file : PlannedFile) : Prop where
  named : uriToPath target.1 = some file.path
  granted : ensurePath gate "desktop.fs.write" file.path = .ok ()
  source : readToString fs file.path = .ok file.source
  ranges : List.Forall₂ (fun edit range => rangeEdit target.1 file.source edit = .ok range)
    target.2 file.ranges

theorem planFile_ok_iff (gate : CapabilityGate) (fs : FileSystem) (target : String × List Value)
    (file : PlannedFile) : planFile gate fs target = .ok file ↔ Planned gate fs target file := by
  rw [planFile]
  cases named : uriToPath target.1 with
  | none =>
      refine iff_of_false nofun ?_
      intro planned
      rw [planned.named] at named
      cases named
  | some path =>
      simp only [Except.bind_ok_iff, Except.map_ok_iff, Except.mapM_ok_iff]
      constructor
      · rintro ⟨⟨⟩, granted, source, read, ranges, converted, rfl⟩
        exact ⟨named, granted, read, converted⟩
      · intro planned
        obtain rfl := Option.some.inj (named.symm.trans planned.named)
        exact ⟨(), planned.granted, file.source, planned.source, file.ranges, planned.ranges, rfl⟩

/-- Two neighbours overlap in the order in which ranges are checked. -/
def Overlaps (file : PlannedFile) : Prop :=
  overlapping (file.ranges.insertionSort rangeBefore) = true

instance (file : PlannedFile) : Decidable (Overlaps file) := inferInstanceAs (Decidable (_ = _))

/-- The files of an edit are planned where each target is planned and none overlaps itself. -/
theorem plannedFiles_ok_iff (gate : CapabilityGate) (fs : FileSystem) (edit : Value)
    (files : List PlannedFile) : plannedFiles gate fs edit = .ok files ↔
      workspaceEditTargets edit ≠ [] ∧
        List.Forall₂ (Planned gate fs) (workspaceEditTargets edit) files ∧
        ∀ file ∈ files, ¬Overlaps file := by
  rw [plannedFiles]
  cases targets : workspaceEditTargets edit with
  | nil => exact iff_of_false nofun (fun held => held.1 rfl)
  | cons target rest =>
      simp only [List.isEmpty_cons, Bool.false_eq_true, if_false, Except.bind_ok_iff,
        Except.mapM_ok_iff, planFile_ok_iff]
      rw [and_iff_right (List.cons_ne_nil target rest)]
      constructor
      · rintro ⟨planned, held, done⟩
        split_ifs at done with overlap
        obtain rfl := Except.ok.inj done
        refine ⟨held, fun file member overlaps => overlap ?_⟩
        exact List.any_eq_true.mpr ⟨file, member, overlaps⟩
      · rintro ⟨held, apart⟩
        refine ⟨files, held, if_neg ?_⟩
        intro overlap
        obtain ⟨file, member, overlaps⟩ := List.any_eq_true.mp overlap
        exact apart file member overlaps

end LspOps

end Daemon
