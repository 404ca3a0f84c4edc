import SynthHiresBridge.Proof.Signing

namespace Daemon

open Json

namespace Updater

variable (updater : Updater) (server : ReleaseServer) (currentVersion : String)

/-- The release a server names is newer than the running version, and the manifest that it serves for
that release is signed and has an artifact for the target. -/
structure Serves (manifest : SignedManifest) (artifact : ArtifactEntry) : Prop where
  client : server.client = .ok ()
  release : ∃ release raw, server.latest = .body release ∧
    isNewerVersion currentVersion (latestVersion release) = true ∧
    server.manifest (manifestUrl (latestVersion release)) = .body raw ∧
    updater.verifyManifestSignature raw = true ∧ updater.parseManifest raw = .ok manifest
  found : updater.findArtifact manifest (currentTarget updater.os updater.aarch64) = some artifact

/-- An update is offered exactly for a served artifact. -/
theorem checkForUpdate_iff (version : String) (artifact : ArtifactEntry) :
    updater.checkForUpdate server currentVersion = .updateAvailable version artifact ↔
      ∃ manifest, updater.Serves server currentVersion manifest artifact ∧
        manifest.version = version := by
  unfold checkForUpdate
  constructor
  · intro offered
    cases client : server.client with
    | error error => simp [client] at offered
    | ok ready =>
        cases latest : server.latest with
        | unreachable error => simp [client, latest] at offered
        | unreadable error => simp [client, latest] at offered
        | body release =>
            simp only [client, latest] at offered
            split at offered
            · cases offered
            · rename_i newer
              cases served : server.manifest (manifestUrl (latestVersion release)) with
              | unreachable error => simp [served] at offered
              | unreadable error => simp [served] at offered
              | body raw =>
                  simp only [served] at offered
                  split at offered
                  · cases offered
                  · rename_i verified
                    cases parsed : updater.parseManifest raw with
                    | error error => simp [parsed] at offered
                    | ok manifest =>
                        simp only [parsed] at offered
                        split at offered
                        · rename_i entry found
                          cases offered
                          exact ⟨manifest, ⟨client, ⟨release, raw, latest, by simpa using newer,
                            served, by simpa using verified, parsed⟩, found⟩, rfl⟩
                        · cases offered
  · rintro ⟨manifest, ⟨client, ⟨release, raw, latest, newer, served, verified, parsed⟩, found⟩, rfl⟩
    simp [client, latest, newer, served, verified, parsed, found]

/-- An offered update is the artifact for the target in a signed manifest whose own version is newer
than the running one. -/
structure Sound (version : String) (artifact : ArtifactEntry) : Prop where
  signed : ∃ release raw manifest, server.latest = .body release ∧
    server.manifest (manifestUrl (latestVersion release)) = .body raw ∧
    updater.verifyManifestSignature raw = true ∧ updater.parseManifest raw = .ok manifest ∧
    manifest.version = version ∧ ∃ name, manifest.artifacts.lookup name = some artifact
  target : artifact.target = currentTarget updater.os updater.aarch64
  newer : isNewerVersion currentVersion version = true

/-- Every update that is offered is sound. -/
def NeverDowngrades : Prop :=
  ∀ version artifact, updater.checkForUpdate server currentVersion =
    .updateAvailable version artifact → updater.Sound server currentVersion version artifact

/-- The server names a release that is newer than the running version, and it serves a signed
manifest with an artifact for the target whose own version is not newer. -/
def Replays : Prop :=
  ∃ release raw manifest, server.client = .ok () ∧ server.latest = .body release ∧
    isNewerVersion currentVersion (latestVersion release) = true ∧
    server.manifest (manifestUrl (latestVersion release)) = .body raw ∧
    updater.verifyManifestSignature raw = true ∧ updater.parseManifest raw = .ok manifest ∧
    (∃ name entry, manifest.artifacts.lookup name = some entry ∧
      entry.target = currentTarget updater.os updater.aarch64) ∧
    isNewerVersion currentVersion manifest.version = false

/-- Updates never downgrade exactly when the server does not replay an older manifest. -/
theorem never_downgrades_iff :
    updater.NeverDowngrades server currentVersion ↔ ¬updater.Replays server currentVersion := by
  constructor
  · rintro sound ⟨release, raw, manifest, client, latest, newer, served, verified, parsed,
      ⟨name, entry, held, target⟩, older⟩
    obtain ⟨artifact, found⟩ := updater.findArtifact_isSome held
    rw [target] at found
    have offered := (updater.checkForUpdate_iff server currentVersion manifest.version artifact).mpr
      ⟨manifest, ⟨client, ⟨release, raw, latest, newer, served, verified, parsed⟩, found⟩, rfl⟩
    have own := (sound manifest.version artifact offered).newer
    rw [older] at own
    cases own
  · intro fresh version artifact offered
    obtain ⟨manifest, serves, rfl⟩ :=
      (updater.checkForUpdate_iff server currentVersion version artifact).mp offered
    obtain ⟨target, there⟩ := findArtifact_some serves.found
    obtain ⟨release, raw, latest, newer, served, verified, parsed⟩ := serves.release
    refine ⟨⟨release, raw, manifest, latest, served, verified, parsed, rfl, there⟩, target, ?_⟩
    by_contra older
    obtain ⟨name, held⟩ := there
    exact fresh ⟨release, raw, manifest, serves.client, latest, newer, served, verified, parsed,
      ⟨name, artifact, held, target⟩, Bool.eq_false_iff.mpr older⟩

end Updater

section Replay

/-- A server that names a new release and serves the file of an old run for it. -/
def replayingServer : ReleaseServer where
  client := .ok ()
  latest := .body (.object [("tag_name", .string "v9.9.9")])
  manifest _ := .body (oldRun.fileOf oldSignature)

theorem linuxUpdater_verifies :
    linuxUpdater.verifyManifestSignature (oldRun.fileOf oldSignature) = true := by
  have verified := oldRun.verifyManifestSignature_file linuxUpdater linuxUpdater_reads
    oldSignature oldKey (hexDecode_hexEncode oldKey) ⟨rfl, rfl⟩ ⟨rfl, rfl⟩
  rw [verified]
  simp [linuxUpdater]

/-- A server without the signing key offers the manifest of an older release. -/
theorem older_manifest_offered :
    ¬ ∀ (updater : Updater) (runs : List SignRun),
      (∀ key message signature, updater.verifyStrict key message signature = true →
        ∃ script ∈ runs, message = script.canonicalBytes) →
      ∀ server currentVersion, updater.NeverDowngrades server currentVersion := by
  intro claim
  have parsed := oldRun.parseManifest_file linuxUpdater linuxUpdater_reads oldSignature
  have held := (oldRun.manifest_target oldSignature List.mem_cons_self rfl _ _).mpr ⟨rfl, rfl⟩
  obtain ⟨artifact, found⟩ := linuxUpdater.findArtifact_isSome held.1
  have newer : isNewerVersion "0.1.22" "9.9.9" = true := by decide
  have offered := (linuxUpdater.checkForUpdate_iff replayingServer "0.1.22" "0.1.20" artifact).mpr
    ⟨_, ⟨rfl, ⟨_, _, rfl, newer, rfl, linuxUpdater_verifies, parsed⟩, found⟩, rfl⟩
  have older : ¬isNewerVersion "0.1.22" "0.1.20" = true := by decide
  have accepts : ∀ key message signature,
      linuxUpdater.verifyStrict key message signature = true →
        ∃ script ∈ [oldRun], message = script.canonicalBytes := by
    intro key message signature verified
    simp only [linuxUpdater, Bool.and_eq_true, decide_eq_true_eq] at verified
    exact ⟨oldRun, List.mem_singleton_self _, verified.1.2⟩
  have sound := claim linuxUpdater [oldRun] accepts replayingServer "0.1.22"
  exact older (sound "0.1.20" artifact offered).newer

end Replay

end Daemon
