import SynthHiresBridge.Daemon.SignManifest
import SynthHiresBridge.Data.JsonParse

namespace Daemon

open Json

/-- Rows have different keys and different targets. -/
theorem manifestAssets_apart : manifestAssets.Pairwise fun first second =>
    first.key ≠ second.key ∧ first.target ≠ second.target := by
  decide

theorem target_injective {first second : AssetRow} (one : first ∈ manifestAssets)
    (two : second ∈ manifestAssets) (same : first.target = second.target) : first = second := by
  have distinct : (manifestAssets.map AssetRow.target).Nodup := by decide
  exact List.inj_on_of_nodup_map distinct one two same

/-- A signature is read back from its digits. -/
theorem hexDecode_hexEncode (bytes : List UInt8) :
    hexDecode (hexEncode bytes).toList = some bytes := by
  have digit : ∀ value < 16, hexDigitValue (hexDigit value) = some value := by decide
  rw [hexEncode, String.toList_ofList]
  induction bytes with
  | nil => rfl
  | cons byte rest ih =>
      have high : byte.toNat / 16 < 16 := by
        have := byte.toNat_lt
        omega
      have low : byte.toNat % 16 < 16 := by omega
      rw [List.flatMap_cons, List.cons_append, List.cons_append, List.nil_append, hexDecode, ih,
        digit _ high, digit _ low]
      show some (UInt8.ofNat (16 * (byte.toNat / 16) + byte.toNat % 16) :: rest) = _
      rw [Nat.div_add_mod, UInt8.ofNat_toNat]

namespace SignRun

variable (script : SignRun)

/-- The entry of a row whose asset is present. -/
def found (row : AssetRow) : Option (String × ArtifactEntry) :=
  (script.assets row.asset).map fun bytes => (row.key, script.entryOf row bytes)

theorem artifacts_eq : script.artifacts =
    (manifestAssets.filterMap script.found).foldl
      (fun table entry => table.insert entry.1 entry.2) ∅ := by
  rw [List.foldl_filterMap, artifacts]
  congr 1
  funext table row
  rw [addArtifact, found]
  cases script.assets row.asset with
  | none => rfl
  | some bytes => rfl

/-- The entry of a name comes from the one row with its key whose asset is present. -/
theorem lookup_artifacts (name : String) (entry : ArtifactEntry) :
    script.artifacts.lookup name = some entry ↔ ∃ row ∈ manifestAssets, row.key = name ∧
      ∃ bytes, script.assets row.asset = some bytes ∧ entry = script.entryOf row bytes := by
  have distinct : ((manifestAssets.filterMap script.found).map Prod.fst).Nodup := by
    rw [List.Nodup, List.pairwise_map, List.pairwise_filterMap]
    apply manifestAssets_apart.imp
    intro first second apart one held two there
    obtain ⟨bytes, -, rfl⟩ := Option.map_eq_some_iff.mp held
    obtain ⟨others, -, rfl⟩ := Option.map_eq_some_iff.mp there
    exact apart.1
  rw [artifacts_eq, Table.lookup_foldl_insert distinct, List.mem_filterMap]
  apply exists_congr
  intro row
  apply and_congr_right
  intro listed
  rw [found, Option.map_eq_some_iff]
  constructor
  · rintro ⟨bytes, present, same⟩
    cases same
    exact ⟨rfl, bytes, present, rfl⟩
  · rintro ⟨rfl, bytes, present, rfl⟩
    exact ⟨bytes, present, rfl⟩

theorem mem_sortedArtifacts (name : String) (entry : ArtifactEntry) :
    (name, entry) ∈ script.sortedArtifacts ↔ script.artifacts.lookup name = some entry := by
  rw [sortedArtifacts, List.mem_filterMap]
  constructor
  · rintro ⟨other, -, same⟩
    obtain ⟨held, found, pair⟩ := Option.map_eq_some_iff.mp same
    cases pair
    exact found
  · intro found
    refine ⟨name, ?_, by rw [found]; rfl⟩
    rw [names, List.mem_insertionSort, ← AList.mem_keys, ← AList.lookup_isSome, found]
    rfl

/-- The names of the sorted artifacts ascend. -/
theorem sortedArtifacts_ascending :
    script.sortedArtifacts.Pairwise fun first second => first.1 < second.1 := by
  have ordered : script.names.Pairwise fun first second => first ≤ second :=
    List.pairwise_insertionSort _ _
  have distinct : script.names.Nodup :=
    (List.perm_insertionSort _ _).nodup_iff.mpr script.artifacts.nodupKeys
  have ascending : script.names.Pairwise fun first second => first < second :=
    (ordered.and distinct).imp fun both => lt_of_le_of_ne both.1 both.2
  rw [sortedArtifacts, List.pairwise_filterMap]
  apply ascending.imp
  intro first second less one held two there
  obtain ⟨entry, -, rfl⟩ := Option.map_eq_some_iff.mp held
  obtain ⟨other, -, rfl⟩ := Option.map_eq_some_iff.mp there
  exact less

end SignRun

/-- An entry is written in ascending keys. -/
theorem ArtifactEntry.sorted_toValue (entry : ArtifactEntry) : entry.toValue.sorted = entry.toValue := by
  have ascending : ["sha256", "target", "url"].Pairwise (· < ·) := by decide
  rw [toValue, Value.sorted, Value.sortedEntries_of_ascending]
  · exact List.pairwise_map.mp ascending
  · simp [Value.sorted]

/-- An entry is read back. -/
theorem ArtifactEntry.ofDocument_toValue (entry : ArtifactEntry) :
    ArtifactEntry.ofDocument entry.toValue = some entry := by
  have once : (["sha256", "target", "url"].filter fun key =>
      ["target", "sha256", "url"].contains key).Nodup := by decide
  have fields : entry.toValue.fieldsOnce ["target", "sha256", "url"] =
      some [some (.string entry.target), some (.string entry.sha256), some (.string entry.url)] := by
    rw [toValue, Value.fieldsOnce]
    exact if_pos once
  rw [ofDocument, fields]
  rfl

namespace SignRun

variable (script : SignRun)

/-- The artifacts as they are written. -/
def written : List (String × Value) :=
  script.sortedArtifacts.map fun entry => (entry.1, entry.2.toValue)

theorem sortedEntries_written : Value.sortedEntries script.written = script.written := by
  apply Value.sortedEntries_of_ascending
  · exact List.pairwise_map.mpr script.sortedArtifacts_ascending
  · intro entry member
    obtain ⟨artifact, -, rfl⟩ := List.mem_map.mp member
    exact artifact.2.sorted_toValue

/-- The verifier sorts the signature between the other entries. -/
theorem sorted_signedValue (signature : List UInt8) : (script.signedValue signature).sorted =
    .object [("artifacts", .object script.written),
      ("publishedAt", .string (dropFraction script.now)),
      ("signature", .string (hexEncode signature)), ("version", .string script.version)] := by
  have order : "artifacts" < "publishedAt" ∧ "publishedAt" < "signature" ∧
      ¬"version" < "signature" := by decide
  rw [signedValue, canonical, ← written, Value.sorted]
  simp [Value.sortedEntries, Value.sorted, insertEntry, order, sortedEntries_written]

/-- The bytes that the verifier rebuilds are the signed ones. -/
theorem canonicalBytes_signedValue (signature : List UInt8) :
    Updater.canonicalBytes (script.signedValue signature).sorted = script.canonicalBytes := by
  rw [sorted_signedValue, Updater.canonicalBytes, Value.bytes_eq]
  rfl

/-- The file spells the signed value. -/
theorem document_signedValue (signature : List UInt8) :
    Document ((script.signedValue signature).indented 0 ++ ['\n']) (script.signedValue signature) ∧
      Plain 127 (script.signedValue signature) := by
  have plain : Plain 127 (script.signedValue signature) := by
    apply Plain.object 126
    simp only [canonical, List.cons_append, List.nil_append, List.forall_mem_cons]
    refine ⟨Plain.object 125 _ ?_, .string _ _, .string _ _, .string _ _, ?_⟩
    · intro entry member
      obtain ⟨artifact, -, rfl⟩ := List.mem_map.mp member
      apply Plain.object 124
      simp [Plain.string]
    · simp
  refine ⟨⟨[], _, ['\n'], rfl, Gap.nil, ?_, indented_spells plain 0⟩, plain⟩
  intro c member
  rw [List.mem_singleton.mp member]
  rfl

/-- The artifacts are read back. -/
theorem readArtifacts_written : readArtifacts (.object script.written) =
    some (script.sortedArtifacts.foldl (fun table entry => table.insert entry.1 entry.2) ∅) := by
  have read : ∀ entries : List (String × ArtifactEntry),
      (entries.map fun entry => (entry.1, entry.2.toValue)).mapM (fun entry =>
        (ArtifactEntry.ofDocument entry.2).map fun artifact => (entry.1, artifact)) =
        some entries := by
    intro entries
    induction entries with
    | nil => rfl
    | cons entry rest ih =>
        rw [List.map_cons, List.mapM_cons, ih, ArtifactEntry.ofDocument_toValue]
        rfl
  rw [readArtifacts, written, Value.asObject, Option.bind_eq_bind, Option.bind_some, read]
  rfl

/-- The manifest that is read from the file. -/
def manifest (signature : List UInt8) : SignedManifest where
  version := script.version
  publishedAt := dropFraction script.now
  artifacts := script.sortedArtifacts.foldl (fun table entry => table.insert entry.1 entry.2) ∅
  signature := hexEncode signature

theorem ofDocument_signedValue (signature : List UInt8) :
    SignedManifest.ofDocument (script.signedValue signature) = some (script.manifest signature) := by
  have once : (["artifacts", "publishedAt", "version", "signature"].filter fun key =>
      ["version", "publishedAt", "artifacts", "signature"].contains key).Nodup := by decide
  have fields : (script.signedValue signature).fieldsOnce
      ["version", "publishedAt", "artifacts", "signature"] =
        some [some (.string script.version), some (.string (dropFraction script.now)),
          some (.object script.written), some (.string (hexEncode signature))] := by
    rw [signedValue, canonical, Value.fieldsOnce]
    exact if_pos once
  simp only [SignedManifest.ofDocument, fields, Option.bind_some, readArtifacts_written]
  rfl

theorem lookup_manifest (signature : List UInt8) (name : String) (entry : ArtifactEntry) :
    (script.manifest signature).artifacts.lookup name = some entry ↔
      ∃ row ∈ manifestAssets, row.key = name ∧
        ∃ bytes, script.assets row.asset = some bytes ∧ entry = script.entryOf row bytes := by
  have distinct : (script.sortedArtifacts.map Prod.fst).Nodup :=
    List.pairwise_map.mpr (script.sortedArtifacts_ascending.imp ne_of_lt)
  rw [manifest, Table.lookup_foldl_insert distinct, mem_sortedArtifacts, lookup_artifacts]

/-- A target with an asset has exactly one entry. -/
theorem manifest_target (signature : List UInt8) {row : AssetRow} (listed : row ∈ manifestAssets)
    {bytes : List UInt8} (present : script.assets row.asset = some bytes) (name : String)
    (entry : ArtifactEntry) :
    ((script.manifest signature).artifacts.lookup name = some entry ∧ entry.target = row.target) ↔
      name = row.key ∧ entry = script.entryOf row bytes := by
  rw [lookup_manifest]
  constructor
  · rintro ⟨⟨other, there, rfl, more, held, rfl⟩, same⟩
    obtain rfl : other = row := target_injective there listed same
    rw [present, Option.some.injEq] at held
    exact ⟨rfl, by rw [held]⟩
  · rintro ⟨rfl, rfl⟩
    exact ⟨⟨row, listed, rfl, bytes, present, rfl⟩, rfl⟩

/-- Entries for one target are the same. -/
theorem manifest_unique (signature : List UInt8) {first second : String}
    {one two : ArtifactEntry}
    (held : (script.manifest signature).artifacts.lookup first = some one)
    (there : (script.manifest signature).artifacts.lookup second = some two)
    (same : one.target = two.target) : one = two := by
  obtain ⟨row, listed, -, bytes, present, rfl⟩ := (script.lookup_manifest _ _ _).mp held
  exact ((script.manifest_target signature listed present second two).mp ⟨there, same.symm⟩).2.symm

end SignRun

namespace Updater

theorem findArtifact_some {updater : Updater} {manifest : SignedManifest} {target : String}
    {artifact : ArtifactEntry} (found : updater.findArtifact manifest target = some artifact) :
    artifact.target = target ∧ ∃ name, manifest.artifacts.lookup name = some artifact := by
  obtain ⟨name, -, held⟩ := List.exists_of_findSome?_eq_some found
  rw [Option.filter_eq_some_iff, decide_eq_true_eq] at held
  exact ⟨held.2, name, held.1⟩

theorem findArtifact_isSome (updater : Updater) {manifest : SignedManifest} {name : String}
    {entry : ArtifactEntry} (held : manifest.artifacts.lookup name = some entry) :
    ∃ artifact, updater.findArtifact manifest entry.target = some artifact := by
  cases found : updater.findArtifact manifest entry.target with
  | some artifact => exact ⟨artifact, rfl⟩
  | none =>
      have listed : name ∈ updater.arrange manifest.artifacts.keys := by
        rw [(updater.arranged _).mem_iff, ← AList.mem_keys, ← AList.lookup_isSome, held]
        rfl
      have missed := List.findSome?_eq_none_iff.mp found name listed
      rw [held, Option.filter_some, if_pos (decide_eq_true rfl)] at missed
      cases missed

/-- Where a target has one entry, no order of the hash map changes the choice. -/
theorem findArtifact_eq_some_iff (updater : Updater) {manifest : SignedManifest} {target : String}
    (unique : ∀ first second one two, manifest.artifacts.lookup first = some one →
      manifest.artifacts.lookup second = some two → one.target = target → two.target = target →
        one = two) (artifact : ArtifactEntry) :
    updater.findArtifact manifest target = some artifact ↔
      artifact.target = target ∧ ∃ name, manifest.artifacts.lookup name = some artifact := by
  refine ⟨findArtifact_some, ?_⟩
  rintro ⟨rfl, name, held⟩
  obtain ⟨other, found⟩ := updater.findArtifact_isSome held
  obtain ⟨there, second, stored⟩ := findArtifact_some found
  rw [found, unique name second artifact other held stored rfl there]

/-- The same daemon with another order of its hash maps. -/
def rearranged (updater : Updater) (arrange : List String → List String)
    (arranged : ∀ keys, (arrange keys).Perm keys) : Updater :=
  { updater with arrange := arrange, arranged := arranged }

/-- Only the choice of an artifact uses the order of a hash map. -/
theorem checkForUpdate_rearranged (updater : Updater) (arrange : List String → List String)
    (arranged : ∀ keys, (arrange keys).Perm keys) (server : ReleaseServer) (currentVersion : String)
    (same : ∀ url raw manifest target, server.manifest url = .body raw →
      updater.parseManifest raw = .ok manifest →
      (updater.rearranged arrange arranged).findArtifact manifest target =
        updater.findArtifact manifest target) :
    (updater.rearranged arrange arranged).checkForUpdate server currentVersion =
      updater.checkForUpdate server currentVersion := by
  have verified : ∀ raw, (updater.rearranged arrange arranged).verifyManifestSignature raw =
      updater.verifyManifestSignature raw := fun _ => rfl
  have parsed : ∀ raw, (updater.rearranged arrange arranged).parseManifest raw =
      updater.parseManifest raw := fun _ => rfl
  have triple : currentTarget (updater.rearranged arrange arranged).os
      (updater.rearranged arrange arranged).aarch64 =
        currentTarget updater.os updater.aarch64 := rfl
  unfold checkForUpdate
  simp only [verified, parsed, triple]
  cases server.client with
  | error error => rfl
  | ok ready =>
      cases server.latest with
      | unreachable error => rfl
      | unreadable error => rfl
      | body release =>
          simp only
          cases served : server.manifest (manifestUrl (latestVersion release)) with
          | unreachable error => rfl
          | unreadable error => rfl
          | body raw =>
              simp only
              cases read : updater.parseManifest raw with
              | error error => rfl
              | ok manifest => simp only [same _ raw manifest _ served read]

end Updater

namespace SignRun

variable (script : SignRun)

theorem names_of_present {row : AssetRow} (listed : row ∈ manifestAssets) {bytes : List UInt8}
    (present : script.assets row.asset = some bytes) : script.names ≠ [] := by
  have held := (script.lookup_artifacts row.key _).mpr ⟨row, listed, rfl, bytes, present, rfl⟩
  apply List.ne_nil_of_mem (a := row.key)
  rw [names, List.mem_insertionSort, ← AList.mem_keys, ← AList.lookup_isSome, held]
  rfl

/-- The file with a given signature. -/
def fileOf (signature : List UInt8) : List UInt8 :=
  Text.encode (String.ofList ((script.signedValue signature).indented 0 ++ ['\n']))

theorem run_eq {row : AssetRow} (listed : row ∈ manifestAssets) {bytes : List UInt8}
    (present : script.assets row.asset = some bytes) {sign : List UInt8 → List UInt8}
    (key : script.sign = some sign) :
    script.run = some ⟨script.canonicalBytes, script.fileOf (sign script.canonicalBytes)⟩ := by
  rw [run, if_neg (script.names_of_present listed present), key]
  rfl

section Agreement

variable (updater : Updater)
  (reads : ∀ text value, Document text value → Plain 127 value →
    updater.document (Text.encode (String.ofList text)) = .ok value)

include reads

theorem document_file (signature : List UInt8) :
    updater.document (script.fileOf signature) = .ok (script.signedValue signature) :=
  reads _ _ (script.document_signedValue signature).1 (script.document_signedValue signature).2

theorem parseManifest_file (signature : List UInt8) :
    updater.parseManifest (script.fileOf signature) = .ok (script.manifest signature) := by
  rw [Updater.parseManifest, script.document_file updater reads]
  simp only [ofDocument_signedValue]

/-- The signature of a file is verified over the bytes that were signed. -/
theorem verifyManifestSignature_file (signature key : List UInt8)
    (decoded : hexDecode updater.pubkeyHex.toList = some key)
    (valid : key.length = 32 ∧ updater.validKey key = true)
    (form : signature.length = 64 ∧ updater.validSignature signature = true) :
    updater.verifyManifestSignature (script.fileOf signature) =
        updater.verifyStrict key script.canonicalBytes signature := by
  have text : ((script.signedValue signature).sorted.get "signature").bind Value.asStr =
      some (hexEncode signature) := by
    rw [sorted_signedValue]
    rfl
  rw [Updater.verifyManifestSignature, decoded]
  simp only [valid, script.document_file updater reads, text, Option.getD_some,
    hexDecode_hexEncode, form, canonicalBytes_signedValue, and_self, if_true]

/-- No order of a hash map changes the update that a file gives. -/
theorem checkForUpdate_file (signature : List UInt8) (arrange : List String → List String)
    (arranged : ∀ keys, (arrange keys).Perm keys) (server : ReleaseServer) (currentVersion : String)
    (served : ∀ url raw, server.manifest url = .body raw → raw = script.fileOf signature) :
    (updater.rearranged arrange arranged).checkForUpdate server currentVersion =
      updater.checkForUpdate server currentVersion := by
  apply updater.checkForUpdate_rearranged
  intro url raw manifest target body read
  rw [served url raw body, script.parseManifest_file updater reads] at read
  cases read
  have unique : ∀ first second one two,
      (script.manifest signature).artifacts.lookup first = some one →
      (script.manifest signature).artifacts.lookup second = some two →
      one.target = target → two.target = target → one = two := by
    intro first second one two held stored own same
    exact script.manifest_unique signature held stored (own.trans same.symm)
  apply Option.ext
  intro artifact
  rw [Updater.findArtifact_eq_some_iff _ unique, Updater.findArtifact_eq_some_iff _ unique]

/-- The verifier rebuilds the bytes that were signed, and every target with an asset has exactly one
entry, so that no order of a hash map changes the choice of an update. -/
theorem signer_agrees (present : ∃ row ∈ manifestAssets, (script.assets row.asset).isSome)
    (sign : List UInt8 → List UInt8) (key : script.sign = some sign) :
    ∃ signed, script.run = some signed ∧
      (∃ document, updater.document signed.file = .ok document ∧
        Updater.canonicalBytes document.sorted = signed.canonicalBytes) ∧
      ∃ manifest, updater.parseManifest signed.file = .ok manifest ∧
        (∀ row ∈ manifestAssets, ∀ bytes, script.assets row.asset = some bytes → ∀ name entry,
          (manifest.artifacts.lookup name = some entry ∧ entry.target = row.target) ↔
            name = row.key ∧ entry = script.entryOf row bytes) ∧
        ∀ arrange arranged server currentVersion,
          (∀ url raw, server.manifest url = .body raw → raw = signed.file) →
          (updater.rearranged arrange arranged).checkForUpdate server currentVersion =
            updater.checkForUpdate server currentVersion := by
  obtain ⟨row, listed, there⟩ := present
  obtain ⟨bytes, there⟩ := Option.isSome_iff_exists.mp there
  refine ⟨_, script.run_eq listed there key, ?_⟩
  dsimp only
  refine ⟨⟨_, script.document_file updater reads _, script.canonicalBytes_signedValue _⟩,
    _, script.parseManifest_file updater reads _, ?_, ?_⟩
  · intro other member more held name entry
    exact script.manifest_target _ member held name entry
  · intro arrange arranged server currentVersion served
    exact script.checkForUpdate_file updater reads _ arrange arranged server currentVersion served

end Agreement

end SignRun

section Release

/-- A parser of documents in UTF-8. -/
def readDocument (bytes : List UInt8) : Except String Value :=
  match (String.fromUTF8? bytes.toByteArray).bind fun text => parseDocument text.toList with
  | some value => .ok value
  | none => .error "expected value"

theorem readDocument_encode {text : List Char} {value : Value} (document : Document text value) :
    readDocument (Text.encode (String.ofList text)) = .ok value := by
  rw [readDocument, Text.fromUTF8?_encode, Option.bind_some, String.toList_ofList,
    parseDocument_eq document]

def oldKey : List UInt8 :=
  [0xCA, 0x06, 0xAD, 0x7B, 0xC6, 0x8D, 0x59, 0xAB, 0xE9, 0x0F, 0x5A, 0x45, 0xB4, 0xF2, 0xBA, 0x25,
    0xBE, 0x8F, 0x00, 0x0F, 0x2E, 0x85, 0xDD, 0x31, 0x12, 0x6D, 0x57, 0xA1, 0xFB, 0x0E, 0xE2, 0xA7]

def oldSignature : List UInt8 :=
  [0xB5, 0x9C, 0x00, 0x42, 0x09, 0x7D, 0x20, 0x2B, 0x3E, 0xF0, 0x2C, 0xE1, 0x34, 0x1E, 0x8C, 0xF0,
    0xDB, 0xB3, 0xD0, 0xFF, 0x15, 0x5A, 0xD3, 0xAB, 0xEE, 0x02, 0x50, 0xDD, 0x30, 0x8F, 0x9E, 0x97,
    0x1E, 0x3F, 0xBD, 0xE9, 0x92, 0xB4, 0x91, 0x6B, 0x17, 0x44, 0x66, 0xD7, 0x44, 0x3C, 0xB4, 0x1C,
    0x8A, 0xA9, 0xC3, 0xF4, 0x56, 0xA3, 0x9C, 0x4F, 0x9B, 0xA5, 0x16, 0x33, 0xC7, 0xBA, 0xBB, 0x0B]

/-- The run for version 0.1.20, with one empty asset. -/
def oldRun : SignRun where
  version := "0.1.20"
  tag := "v0.1.20"
  repo := "planobinario/synthhires-bridge"
  now := "2026-07-01T00:00:00.000Z"
  assets name := if name = "synthhires-bridge-linux-x64" then some [] else none
  sha256 _ := "e3b0c44298fc1c149afbf4c8996fb92427ae41e4649b934ca495991b7852b855"
  sign := some fun _ => oldSignature

/-- A daemon for Linux that accepts the one signature of that run. -/
def linuxUpdater : Updater where
  os := .other
  aarch64 := false
  pubkeyHex := hexEncode oldKey
  document := readDocument
  manifestMessage _ := "missing field"
  validKey _ := true
  validSignature _ := true
  verifyStrict key message signature := decide (key = oldKey) &&
    decide (message = oldRun.canonicalBytes) && decide (signature = oldSignature)
  arrange keys := keys
  arranged keys := List.Perm.refl keys

theorem linuxUpdater_reads (text : List Char) (value : Value) (document : Document text value)
    (_ : Plain 127 value) :
    linuxUpdater.document (Text.encode (String.ofList text)) = .ok value := by
  have parser : linuxUpdater.document = readDocument := rfl
  rw [parser, readDocument_encode document]

theorem signer_agrees_release : ∃ signed, oldRun.run = some signed ∧ ∃ document,
    linuxUpdater.document signed.file = .ok document ∧
      Updater.canonicalBytes document.sorted = signed.canonicalBytes := by
  obtain ⟨signed, ran, agrees, -⟩ := oldRun.signer_agrees linuxUpdater linuxUpdater_reads
    ⟨_, List.mem_cons_self, rfl⟩ _ rfl
  exact ⟨signed, ran, agrees⟩

end Release

end Daemon
