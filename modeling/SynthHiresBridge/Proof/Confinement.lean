import SynthHiresBridge.Posix.Replace
import SynthHiresBridge.Proof.PathGate

namespace Daemon

open Posix FileSystem

namespace FsOps

/-- An atomic write that succeeds replaces the entry of its path and nothing else. -/
theorem writeViaUniqueTmp_ok (moment : Moment) (fs after : FileSystem) (path : String)
    (bytes : List UInt8) (done : writeViaUniqueTmp moment fs path bytes = (.ok (), after)) :
    ∃ entry, Replaced fs after (.ofText path) entry (.file bytes) := by
  unfold writeViaUniqueTmp at done
  cases made : fs.createNew ((PathBuf.ofText path).withExtension
      ("synthhires-tmp-" ++ moment.uuid)) bytes with
  | error _ => simp [made] at done
  | ok created =>
      simp only [made] at done
      cases seen : created.symlinkMetadata ((PathBuf.ofText path).withExtension
          ("synthhires-tmp-" ++ moment.uuid)) with
      | error _ => simp [seen] at done
      | ok node =>
          cases moved : created.rename ((PathBuf.ofText path).withExtension
              ("synthhires-tmp-" ++ moment.uuid)) (.ofText path) with
          | error _ => cases node <;> simp [seen, moved] at done
          | ok renamed =>
              obtain rfl : renamed = after := by
                cases node <;> simp [seen, moved] at done <;> exact done
              exact replaced_of_createNew fs created renamed _ _ bytes made moved

/-- A write that succeeds made its parents and replaced its entry. -/
theorem write_ok (moment : Moment) (gate : CapabilityGate) (fs after : FileSystem)
    (req : FsWriteRequest) (result : FsWriteResult)
    (done : write moment gate fs req = (.ok result, after)) :
    gateForPath gate fs "desktop.fs.write" req.path = .ok () ∧
      ∃ made entry, fs.createDirAll (PathBuf.ofText req.path).above = (.ok (), made) ∧
        (PathBuf.ofText req.path).parent = some (PathBuf.ofText req.path).above ∧
        Replaced made after (.ofText req.path) entry (.file (Text.encode req.content)) := by
  unfold write at done
  cases passed : gateForPath gate fs "desktop.fs.write" req.path with
  | error _ => simp [passed] at done
  | ok _ =>
      refine ⟨rfl, ?_⟩
      simp only [passed] at done
      split at done
      · cases done
      · rcases (PathBuf.ofText req.path).parent_eq_none_or with orphan | parent
        · simp [orphan] at done
        · simp only [parent] at done
          cases created : fs.createDirAll (PathBuf.ofText req.path).above with
          | mk outcome made =>
              rw [created] at done
              cases outcome with
              | error _ => simp at done
              | ok _ =>
                  simp only at done
                  cases wrote : writeViaUniqueTmp moment made req.path
                      (Text.encode req.content) with
                  | mk outcome written =>
                      rw [wrote] at done
                      cases outcome with
                      | error _ => simp at done
                      | ok _ =>
                          obtain ⟨entry, replaced⟩ :=
                            writeViaUniqueTmp_ok moment made written req.path _ wrote
                          obtain rfl : written = after := by
                            cases back : written.read (.ofText req.path) <;> simp [back] at done
                            exact done.2
                          exact ⟨made, entry, rfl, parent, replaced⟩

/-- A patch that succeeds read its target and replaced its entry. -/
theorem patch_ok (host : Host) (moment : Moment) (gate : CapabilityGate) (fs after : FileSystem)
    (req : FsPatchRequest) (result : FsPatchResult)
    (done : patch host moment gate fs req = (.ok result, after)) :
    gateForPath gate fs "desktop.fs.write" req.path = .ok () ∧
      ∃ bytes entry, Replaced fs after (.ofText req.path) entry (.file bytes) := by
  unfold patch at done
  cases passed : gateForPath gate fs "desktop.fs.write" req.path with
  | error _ => simp [passed] at done
  | ok _ =>
      refine ⟨rfl, ?_⟩
      simp only [passed] at done
      split at done
      · cases done
      · cases reads : fs.read (.ofText req.path) with
        | error _ => simp [reads] at done
        | ok original =>
            simp only [reads] at done
            cases planned : patchedContent host original req.edits with
            | error _ => simp [planned] at done
            | ok content =>
                simp only [planned] at done
                cases wrote : writeViaUniqueTmp moment fs req.path (Text.encode content.1) with
                | mk outcome written =>
                    rw [wrote] at done
                    cases outcome with
                    | error _ => simp at done
                    | ok _ =>
                        obtain ⟨entry, replaced⟩ :=
                          writeViaUniqueTmp_ok moment fs written req.path _ wrote
                        obtain rfl : written = after := by
                          cases back : written.read (.ofText req.path) <;> simp [back] at done
                          exact done.2
                        exact ⟨_, entry, replaced⟩

/-- A delete that succeeds removes the entry of its path with everything below it. -/
theorem delete_ok (gate : CapabilityGate) (fs after : FileSystem) (req : FsDeleteRequest)
    (done : delete gate fs req = (.ok (), after)) :
    gateForPath gate fs "desktop.fs.delete" req.path = .ok () ∧
      ∃ entry, fs.entryOf (.ofText req.path) = .ok entry ∧ (fs.lookup entry).isSome ∧
        ∀ location, after.lookup location =
          if entry <+: location then none else fs.lookup location := by
  unfold delete at done
  cases passed : gateForPath gate fs "desktop.fs.delete" req.path with
  | error _ => simp [passed] at done
  | ok _ =>
      refine ⟨rfl, ?_⟩
      simp only [passed] at done
      have removed : ∃ entry, fs.entryOf (.ofText req.path) = .ok entry ∧
          (fs.lookup entry).isSome ∧ entry ≠ [] ∧ after = fs.removeTree entry := by
        cases seen : fs.metadata (.ofText req.path) with
        | error _ => simp [seen] at done
        | ok node =>
            by_cases dir : node = .dir
            · have emptied := fs.removeDirAll_case (.ofText req.path)
              simp only [seen, dir] at done
              generalize fs.removeDirAll (.ofText req.path) = result at done emptied
              cases emptied with
              | refused _ => simp at done
              | removed entry stands present nested =>
                  exact ⟨entry, stands, present, nested, (congrArg Prod.snd done).symm⟩
              | emptied _ _ _ => simp at done
            · have gone : fs.removeFile (.ofText req.path) = .ok after := by
                cases outcome : fs.removeFile (.ofText req.path) with
                | error _ => cases node <;> simp [seen, outcome] at done dir
                | ok removed => cases node <;> simp [seen, outcome] at done dir <;> rw [done]
              exact fs.removeFile_ok after _ gone
      obtain ⟨entry, stands, present, nested, rfl⟩ := removed
      refine ⟨entry, stands, present, fun location => ?_⟩
      rw [lookup_removeTree fs entry location nested]
      simp only [List.isPrefixOf_iff_prefix]

end FsOps

namespace CapabilityGate

/-- The last entry of a path fits when it is no link or when the link itself is in scope. -/
def EntryFits (gate : CapabilityGate) (fs : FileSystem) (path : PathBuf) : Prop :=
  ∀ entry target, fs.entryOf path = .ok entry → fs.lookup entry = some (.symlink target) →
    gate.InScope fs entry

/-- The entry of a path is in scope when its real place is and the entry fits. -/
theorem entry_inScope (gate : CapabilityGate) (fs : FileSystem) (path : PathBuf)
    (entry real : Location) (stands : fs.entryOf path = .ok entry)
    (found : fs.realAncestor path = some real) (within : gate.InScope fs real)
    (fits : gate.EntryFits fs path) : gate.InScope fs entry := by
  cases present : fs.lookup entry with
  | none => exact within.below (realAncestor_of_missing fs path entry real stands present found)
  | some node =>
      by_cases link : ∃ target, node = .symlink target
      · obtain ⟨target, rfl⟩ := link
        exact fits entry target stands present
      · have resolved := canonicalize_of_entry fs path entry node stands present
          fun target same => link ⟨target, same⟩
        rw [realAncestor_of_canonicalize fs path entry resolved] at found
        obtain rfl : entry = real := by simpa using found
        exact within

/-- Without one-shot approvals the second check of a mutation finds the real place in scope. -/
theorem inScope_of_gateForPath (gate : CapabilityGate) (fs : FileSystem)
    (capability path : String) (mutates : capability ≠ "desktop.fs.read")
    (single : gate.snapshot.oneShotPaths = [])
    (passed : FsOps.gateForPath gate fs capability path = .ok ()) :
    (PathBuf.ofText path).hasParentDir = false ∧
      ∃ real, fs.realAncestor (.ofText path) = some real ∧ gate.InScope fs real := by
  rw [FsOps.gateForPath_ok_iff, if_neg mutates, checkPathReal_allow_iff] at passed
  obtain ⟨lexical, real, found, approved | within⟩ := passed
  · simp [oneShot, single] at approved
  · exact ⟨((gate.checkPath_allow_iff _ _).mp lexical).2.1, real, found, within⟩

end CapabilityGate

/-- The operations that change the disk behind the second check. -/
inductive FileOp where
  | write (req : FsWriteRequest)
  | patch (req : FsPatchRequest)
  | delete (req : FsDeleteRequest)

namespace FileOp

def path : FileOp → String
  | .write req => req.path
  | .patch req => req.path
  | .delete req => req.path

def run (op : FileOp) (host : Host) (moment : Moment) (gate : CapabilityGate) (fs : FileSystem) :
    Except DaemonError Unit × FileSystem :=
  match op with
  | .write req => let ran := FsOps.write moment gate fs req; (ran.1.map fun _ => (), ran.2)
  | .patch req => let ran := FsOps.patch host moment gate fs req; (ran.1.map fun _ => (), ran.2)
  | .delete req => FsOps.delete gate fs req

/-- A location is touched when its entry differs. -/
def Changed (before after : FileSystem) (location : Location) : Prop :=
  before.lookup location ≠ after.lookup location

/-- A successful operation makes directories above its entry, and it puts a new node at the entry
or removes the entry with everything below it. -/
inductive Effect (fs after : FileSystem) (path : PathBuf) : Prop where
  | replaced (entry : Location) (bytes : List UInt8)
      (replaced : Replaced fs after path entry (.file bytes)) : Effect fs after path
  | made (made : FileSystem) (place : Location) (entry : Location) (bytes : List UInt8)
      (upper : MadeDir fs made path.above place) (parent : path.parent = some path.above)
      (replaced : Replaced made after path entry (.file bytes)) : Effect fs after path
  | removed (entry : Location) (stands : fs.entryOf path = .ok entry)
      (present : (fs.lookup entry).isSome) (lookup : ∀ location, after.lookup location =
        if entry <+: location then none else fs.lookup location) : Effect fs after path

/-- A successful operation passed its check and had its effect. -/
theorem run_ok (op : FileOp) (host : Host) (moment : Moment) (gate : CapabilityGate)
    (fs after : FileSystem) (single : gate.snapshot.oneShotPaths = [])
    (done : op.run host moment gate fs = (.ok (), after)) :
    Effect fs after (.ofText op.path) ∧
      ∃ real, fs.realAncestor (.ofText op.path) = some real ∧ gate.InScope fs real := by
  cases op with
  | write req =>
      cases wrote : FsOps.write moment gate fs req with
      | mk outcome held =>
          simp only [run, wrote, Prod.mk.injEq] at done
          obtain ⟨result, rfl⟩ : ∃ result, outcome = .ok result := by
            cases outcome with
            | error _ => simp [Except.map] at done
            | ok result => exact ⟨result, rfl⟩
          obtain rfl := done.2
          obtain ⟨passed, made, entry, created, parent, replaced⟩ :=
            FsOps.write_ok moment gate fs held req result wrote
          obtain ⟨forward, real, found, within⟩ :=
            gate.inScope_of_gateForPath fs _ req.path (by decide) single passed
          refine ⟨?_, real, found, within⟩
          rcases createDirAll_above fs made _ forward created with rfl | ⟨place, upper⟩
          · exact .replaced entry _ replaced
          · exact .made made place entry _ upper parent replaced
  | patch req =>
      cases wrote : FsOps.patch host moment gate fs req with
      | mk outcome held =>
          simp only [run, wrote, Prod.mk.injEq] at done
          obtain ⟨result, rfl⟩ : ∃ result, outcome = .ok result := by
            cases outcome with
            | error _ => simp [Except.map] at done
            | ok result => exact ⟨result, rfl⟩
          obtain rfl := done.2
          obtain ⟨passed, bytes, entry, replaced⟩ :=
            FsOps.patch_ok host moment gate fs held req result wrote
          obtain ⟨-, real, found, within⟩ :=
            gate.inScope_of_gateForPath fs _ req.path (by decide) single passed
          exact ⟨.replaced entry bytes replaced, real, found, within⟩
  | delete req =>
      obtain ⟨passed, entry, stands, present, lookup⟩ := FsOps.delete_ok gate fs after req done
      obtain ⟨-, real, found, within⟩ :=
        gate.inScope_of_gateForPath fs _ req.path (by decide) single passed
      exact ⟨.removed entry stands present lookup, real, found, within⟩

/-- What an operation changes lies in scope when its last entry fits. -/
theorem Effect.inScope {fs after : FileSystem} {path : PathBuf} (effect : Effect fs after path)
    (gate : CapabilityGate) (real : Location) (found : fs.realAncestor path = some real)
    (within : gate.InScope fs real) (fits : gate.EntryFits fs path) (location : Location)
    (changed : Changed fs after location) : gate.InScope fs location := by
  cases effect with
  | replaced entry bytes replaced =>
      have own : location = entry := by
        by_contra other
        exact changed (by rw [replaced.lookup, if_neg other])
      rw [own]
      exact gate.entry_inScope fs path entry real replaced.stands found within fits
  | removed entry stands present lookup =>
      have covered : entry <+: location := by
        by_contra other
        exact changed (by rw [lookup, if_neg other])
      exact (gate.entry_inScope fs path entry real stands found within fits).below covered
  | made made place entry bytes upper parent replaced =>
      obtain ⟨plain, name, named⟩ := named_of_plain made path entry replaced.stands replaced.free
      obtain rfl : place ++ [name] = entry := by
        have stands := replaced.stands
        rw [entryOf_named made path name plain named, upper.container] at stands
        simpa [Except.map] using stands
      have change : location = place ++ [name] ∨
          (fs.lookup location = none ∧ location <+: place) := by
        by_cases own : location = place ++ [name]
        · exact .inl own
        · refine .inr (by_contra fun other => changed ?_)
          rw [replaced.lookup, if_neg own, upper.added, if_neg other]
      cases standing : made.lookup (place ++ [name]) with
      | some node =>
          -- The entry stood there before, so no directory was made.
          have held := upper.unchanged name (by simp [standing])
          have stands : fs.entryOf path = .ok (place ++ [name]) := by
            rw [entryOf_named fs path name plain named, held]
            rfl
          rcases change with rfl | ⟨missing, above⟩
          · exact gate.entry_inScope fs path _ real stands found within fits
          · have present := fs.lookup_of_prefix location place above
              (by simp [container_dir fs path place held])
            simp [missing] at present
      | none =>
          -- The entry is new, so the real place of the path is one of the parents.
          have failed : ∃ reason, fs.canonicalize path = .error reason := by
            cases resolved : fs.canonicalize path with
            | error reason => exact ⟨reason, rfl⟩
            | ok other =>
                obtain ⟨entry, node, stands, present, -⟩ :=
                  canonicalize_entry fs path name other plain named resolved
                have still := entryOf_mono upper.extends.covers upper.cwd path entry stands
                rw [replaced.stands] at still
                cases still
                rw [upper.extends _ node present] at standing
                cases standing
          obtain ⟨reason, failed⟩ := failed
          have climbed := found
          rw [realAncestor_of_error fs path reason failed, parent, Option.bind_some] at climbed
          have above_place := upper.below real climbed
          rcases change with rfl | ⟨missing, above⟩
          · exact within.below (above_place.trans (List.prefix_append place [name]))
          · rcases List.prefix_or_prefix_of_prefix above above_place with short | long
            · have present := fs.lookup_of_prefix location real short
                (realAncestor_exists fs path real found)
              simp [missing] at present
            · exact within.below long

/-- An operation that meets a link at its last entry changes that entry. -/
theorem Effect.changed_link {fs after : FileSystem} {path : PathBuf}
    (effect : Effect fs after path) (entry : Location) (target : PathBuf)
    (stands : fs.entryOf path = .ok entry) (link : fs.lookup entry = some (.symlink target)) :
    Changed fs after entry := by
  unfold Changed
  rw [link]
  cases effect with
  | replaced other bytes replaced =>
      obtain rfl : other = entry := Except.ok.inj (replaced.stands.symm.trans stands)
      rw [replaced.lookup, if_pos rfl]
      simp
  | removed other same present lookup =>
      obtain rfl : other = entry := Except.ok.inj (same.symm.trans stands)
      rw [lookup, if_pos List.prefix_rfl]
      simp
  | made made place other bytes upper parent replaced =>
      have still := entryOf_mono upper.extends.covers upper.cwd path entry stands
      obtain rfl : other = entry := Except.ok.inj (replaced.stands.symm.trans still)
      rw [replaced.lookup, if_pos rfl]
      simp

/-- A successful operation stays in scope exactly when its last entry is no link or the link itself
is in scope. -/
theorem confined_iff (op : FileOp) (host : Host) (moment : Moment) (gate : CapabilityGate)
    (fs : FileSystem) (single : gate.snapshot.oneShotPaths = [])
    (done : (op.run host moment gate fs).1 = .ok ()) :
    (∀ location, Changed fs (op.run host moment gate fs).2 location →
      gate.InScope fs location) ↔ gate.EntryFits fs (.ofText op.path) := by
  obtain ⟨effect, real, found, within⟩ := op.run_ok host moment gate fs
    (op.run host moment gate fs).2 single (Prod.ext done rfl)
  constructor
  · intro confined entry target stands link
    exact confined entry (effect.changed_link entry target stands link)
  · exact fun fits location => effect.inScope gate real found within fits location

/-- A tree has an allowed directory, and a link leads from it to another directory that links
back into it. -/
def looped : FileSystem :=
  ((((FileSystem.empty.put ["w"] .dir).put ["w", "x"] (.file [])).put ["w", "out"]
    (.symlink (.ofText "/etc"))).put ["etc"] .dir).put ["etc", "back"]
      (.symlink (.ofText "/w/x"))

/-- The gate grants the operations on files in one directory. -/
def workspaceGate : CapabilityGate := .ofScopes ⟨["desktop.fs.write", "desktop.fs.delete"], ["/w"]⟩

/-- A write inside the allowed directory stays in scope. -/
theorem confined_inside :
    ((write ⟨"/w/x", "a"⟩).run .quiet (.quiet 0) workspaceGate looped).1 = .ok () ∧
    ∀ location, Changed looped
      ((write ⟨"/w/x", "a"⟩).run .quiet (.quiet 0) workspaceGate looped).2 location →
        workspaceGate.InScope looped location := by
  have done : ((write ⟨"/w/x", "a"⟩).run .quiet (.quiet 0) workspaceGate looped).1 = .ok () := by
    decide +kernel
  refine ⟨done, (confined_iff (.write ⟨"/w/x", "a"⟩) .quiet (.quiet 0) workspaceGate looped rfl
    done).mpr fun entry target stands link => ?_⟩
  obtain rfl : ["w", "x"] = entry := by
    have own : looped.entryOf (.ofText "/w/x") = .ok ["w", "x"] := by decide +kernel
    exact Except.ok.inj (own.symm.trans stands)
  decide +kernel

/-- A write through the two links replaces the second link, which stands outside the allowed
directory. -/
theorem confined_escapes :
    ¬ ∀ (op : FileOp) (host : Host) (moment : Moment) (gate : CapabilityGate) (fs : FileSystem),
      gate.snapshot.oneShotPaths = [] → (op.run host moment gate fs).1 = .ok () →
      ∀ location, Changed fs (op.run host moment gate fs).2 location →
        gate.InScope fs location := by
  intro claim
  have within := claim (.write ⟨"/w/out/back", "a"⟩) .quiet (.quiet 0) workspaceGate looped rfl
    (by decide +kernel) ["etc", "back"] (by unfold Changed; decide +kernel)
  exact absurd within (by decide +kernel)

end FileOp

end Daemon
