import Mathlib.Data.List.Forall2
import SynthHiresBridge.Daemon.AuditLog

namespace Daemon

open Json

/-- An entry is read back from its own document. -/
theorem AuditEntry.ofDocument_toValue {Time : Type} (libraries : AuditLibraries Time)
    (entry : AuditEntry Time)
    (time : libraries.readTime (libraries.spellTime entry.ts) = some entry.ts) :
    ofDocument libraries (entry.toValue libraries) = some entry := by
  have fit : entry.durationMs.toNat < UInt64.size := entry.durationMs.toNat_lt
  have read : (entry.toValue libraries).fieldsOnce
      ["ts", "capability", "params_summary", "ok", "duration_ms", "device_id"] =
      some [some (.string (libraries.spellTime entry.ts)), some (.string entry.capability),
        some (.string entry.paramsSummary), some (.bool entry.ok),
        some (.ofNat entry.durationMs.toNat), some (.string entry.deviceId)] := by
    rw [toValue, Value.fieldsOnce]
    simp only [List.map_cons, List.map_nil]
    rw [if_pos (by decide)]
    rfl
  rw [ofDocument, read]
  simp [Value.asStr, Value.asBool, Value.asU64, Value.ofNat, time, fit]

namespace AuditLog

variable {Time : Type} (libraries : AuditLibraries Time) (cipher : AuditCipher) (log : AuditLog)

/-- The cipher opens what it sealed for the records of a log. -/
def Opens (records : List (AuditEntry Time × Vector UInt8 12)) : Prop :=
  ∀ record ∈ records, ∀ ciphertext,
    cipher.encrypt log.key record.2.toList (record.1.toValue libraries).bytes = .ok ciphertext →
    cipher.decrypt log.key record.2.toList ciphertext = .ok (record.1.toValue libraries).bytes

/-- The libraries read back the entries that they wrote. -/
def Reads (records : List (AuditEntry Time × Vector UInt8 12)) : Prop :=
  ∀ record ∈ records,
    libraries.readTime (libraries.spellTime record.1.ts) = some record.1.ts ∧
    libraries.document (record.1.toValue libraries).bytes = .ok (record.1.toValue libraries)

/-- The frames of records are written one after another. -/
def Framed (records : List (AuditEntry Time × Vector UInt8 12)) (frames : List (List UInt8)) :
    Prop :=
  List.Forall₂ (fun record frame => log.frame libraries cipher record.1 record.2 = .ok frame)
    records frames

variable {libraries cipher log}

theorem frame_ok {entry : AuditEntry Time} {nonce : Vector UInt8 12} {frame : List UInt8}
    (framed : log.frame libraries cipher entry nonce = .ok frame) :
    ∃ ciphertext,
      cipher.encrypt log.key nonce.toList (entry.toValue libraries).bytes = .ok ciphertext ∧
      frame = nonce.toList ++ ciphertext := by
  rw [AuditLog.frame] at framed
  cases sealing : cipher.encrypt log.key nonce.toList (entry.toValue libraries).bytes with
  | error error =>
      rw [sealing] at framed
      cases framed
  | ok ciphertext =>
      rw [sealing] at framed
      exact ⟨ciphertext, rfl, (Except.ok.inj framed).symm⟩

theorem appendAll_ok {file written : Option (List UInt8)}
    {records : List (AuditEntry Time × Vector UInt8 12)}
    (appended : log.appendAll libraries cipher file records = .ok written) :
    ∃ frames, log.Framed libraries cipher records frames ∧
      written.getD [] = file.getD [] ++ Separated.write 0x0A frames := by
  induction records generalizing file with
  | nil =>
      obtain rfl := Except.ok.inj appended
      exact ⟨[], .nil, by simp [Separated.write]⟩
  | cons record rest ih =>
      obtain ⟨entry, nonce⟩ := record
      rw [appendAll, append] at appended
      cases framed : log.frame libraries cipher entry nonce with
      | error error =>
          rw [framed] at appended
          cases appended
      | ok frame =>
          rw [framed] at appended
          obtain ⟨frames, all, same⟩ := ih appended
          refine ⟨frame :: frames, .cons framed all, ?_⟩
          rw [same]
          simp [Separated.write]

/-- A log that does not exist yet has no lines. -/
theorem readAll_eq (file : Option (List UInt8)) : log.readAll libraries cipher file =
    log.readLines libraries cipher (Separated.read 0x0A (file.getD [])) := by
  cases file with
  | none => rfl
  | some raw => rfl

theorem readLine_frame {records : List (AuditEntry Time × Vector UInt8 12)}
    (reads : Reads libraries records) (opens : log.Opens libraries cipher records)
    {record : AuditEntry Time × Vector UInt8 12} (member : record ∈ records) {frame : List UInt8}
    (framed : log.frame libraries cipher record.1 record.2 = .ok frame) :
    log.readLine libraries cipher frame = .ok (some record.1) := by
  obtain ⟨ciphertext, sealing, rfl⟩ := frame_ok framed
  obtain ⟨time, document⟩ := reads record member
  have width : record.2.toList.length = 12 := Vector.length_toList
  have long : ¬(record.2.toList ++ ciphertext).length < 12 := by
    rw [List.length_append]
    omega
  rw [readLine, if_neg long, List.take_left' width, List.drop_left' width,
    opens record member ciphertext sealing]
  dsimp only
  rw [document]
  dsimp only
  rw [AuditEntry.ofDocument_toValue libraries record.1 time]

/-- Every frame of a log is a line that is read back. -/
theorem readLines_frames {records done : List (AuditEntry Time × Vector UInt8 12)}
    (reads : Reads libraries records) (opens : log.Opens libraries cipher records)
    {frames : List (List UInt8)} (framed : log.Framed libraries cipher done frames)
    (within : done ⊆ records) :
    log.readLines libraries cipher frames = .ok (done.map Prod.fst) := by
  induction framed with
  | nil => rfl
  | cons own others ih =>
      obtain ⟨member, rest⟩ := List.cons_subset.mp within
      rw [readLines, readLine_frame reads opens member own]
      dsimp only
      rw [ih rest]
      rfl

theorem Framed.exists_record {records : List (AuditEntry Time × Vector UInt8 12)}
    {frames : List (List UInt8)} (framed : log.Framed libraries cipher records frames)
    {frame : List UInt8} (member : frame ∈ frames) :
    ∃ record ∈ records, log.frame libraries cipher record.1 record.2 = .ok frame := by
  induction framed with
  | nil => cases member
  | cons own others ih =>
      rcases List.mem_cons.mp member with rfl | inside
      · exact ⟨_, List.mem_cons_self, own⟩
      · obtain ⟨record, known, same⟩ := ih inside
        exact ⟨record, List.mem_cons_of_mem _ known, same⟩

theorem Framed.frame_mem {records : List (AuditEntry Time × Vector UInt8 12)}
    {frames : List (List UInt8)} (framed : log.Framed libraries cipher records frames)
    {record : AuditEntry Time × Vector UInt8 12} (member : record ∈ records) {frame : List UInt8}
    (own : log.frame libraries cipher record.1 record.2 = .ok frame) : frame ∈ frames := by
  induction framed with
  | nil => cases member
  | cons first others ih =>
      rcases List.mem_cons.mp member with rfl | inside
      · rw [own] at first
        obtain rfl := Except.ok.inj first
        exact List.mem_cons_self
      · exact List.mem_cons_of_mem _ (ih inside)

/-- Records whose frames have no newline are read back in order. -/
theorem readAll_of_clean {records : List (AuditEntry Time × Vector UInt8 12)}
    {file : Option (List UInt8)} (appended : log.appendAll libraries cipher none records = .ok file)
    (reads : Reads libraries records) (opens : log.Opens libraries cipher records)
    (clean : ∀ record ∈ records, ∀ frame,
      log.frame libraries cipher record.1 record.2 = .ok frame → 0x0A ∉ frame) :
    log.readAll libraries cipher file = .ok (records.map Prod.fst) := by
  obtain ⟨frames, framed, same⟩ := appendAll_ok appended
  have solid : ∀ frame ∈ frames, frame ≠ [] := by
    intro frame member
    obtain ⟨record, known, own⟩ := framed.exists_record member
    obtain ⟨ciphertext, sealing, rfl⟩ := frame_ok own
    apply List.ne_nil_of_length_pos
    rw [List.length_append, Vector.length_toList]
    omega
  have whole : ∀ frame ∈ frames, 0x0A ∉ frame := by
    intro frame member
    obtain ⟨record, known, own⟩ := framed.exists_record member
    exact clean record known frame own
  rw [readAll_eq, same, Option.getD_none, List.nil_append,
    Separated.read_write_of_clean whole solid]
  exact readLines_frames reads opens framed (List.Subset.refl records)

/-- The entries that are read come from lines in their order. -/
theorem readLines_ok {lines : List (List UInt8)} {entries : List (AuditEntry Time)}
    (read : log.readLines libraries cipher lines = .ok entries) :
    ∃ kept : List (List UInt8), kept.Sublist lines ∧
      List.Forall₂ (fun line entry => log.readLine libraries cipher line = .ok (some entry))
        kept entries := by
  induction lines generalizing entries with
  | nil =>
      obtain rfl := Except.ok.inj read
      exact ⟨[], .slnil, .nil⟩
  | cons line rest ih =>
      rw [readLines] at read
      cases own : log.readLine libraries cipher line with
      | error error =>
          rw [own] at read
          cases read
      | ok entry =>
          cases others : log.readLines libraries cipher rest with
          | error error =>
              rw [own, others] at read
              cases read
          | ok more =>
              rw [own, others] at read
              obtain rfl := Except.ok.inj read
              obtain ⟨kept, part, all⟩ := ih others
              cases entry with
              | none => exact ⟨kept, part.cons line, all⟩
              | some entry => exact ⟨line :: kept, part.cons_cons line, .cons own all⟩

/-- A cipher opens the frames of a log and nothing else. -/
def onlyFrames (libraries : AuditLibraries Time) (cipher : AuditCipher) (log : AuditLog)
    (records : List (AuditEntry Time × Vector UInt8 12)) (_key nonce ciphertext : List UInt8) :
    Except String (List UInt8) :=
  match records.find? fun record => decide (record.2.toList = nonce) &&
    decide (cipher.encrypt log.key record.2.toList (record.1.toValue libraries).bytes =
      .ok ciphertext) with
  | some record => .ok (record.1.toValue libraries).bytes
  | none => .error "aead::Error"

/-- What such a cipher opens is the plaintext of a record. -/
theorem onlyFrames_ok {records : List (AuditEntry Time × Vector UInt8 12)}
    {key nonce ciphertext plaintext : List UInt8}
    (opened : onlyFrames libraries cipher log records key nonce ciphertext = .ok plaintext) :
    ∃ record ∈ records, record.2.toList = nonce ∧
      cipher.encrypt log.key record.2.toList (record.1.toValue libraries).bytes = .ok ciphertext ∧
      plaintext = (record.1.toValue libraries).bytes := by
  rw [onlyFrames] at opened
  split at opened
  · rename_i record found
    have known := List.mem_of_find?_eq_some found
    have accepted := List.find?_some found
    rw [Bool.and_eq_true, decide_eq_true_iff, decide_eq_true_iff] at accepted
    exact ⟨record, known, accepted.1, accepted.2, (Except.ok.inj opened).symm⟩
  · cases opened

theorem opens_onlyFrames {records : List (AuditEntry Time × Vector UInt8 12)}
    (undoes : ∀ nonce plaintext ciphertext, cipher.encrypt log.key nonce plaintext =
      .ok ciphertext → cipher.decrypt log.key nonce ciphertext = .ok plaintext) :
    log.Opens libraries ⟨cipher.encrypt, onlyFrames libraries cipher log records⟩ records := by
  intro record member ciphertext sealing
  change onlyFrames libraries cipher log records log.key record.2.toList ciphertext = _
  change cipher.encrypt log.key record.2.toList (record.1.toValue libraries).bytes =
    .ok ciphertext at sealing
  cases opened : onlyFrames libraries cipher log records log.key record.2.toList ciphertext with
  | ok plaintext =>
      obtain ⟨other, known, nonce, sealed, rfl⟩ := onlyFrames_ok opened
      have first := undoes _ _ _ sealed
      have second := undoes _ _ _ sealing
      rw [nonce, second] at first
      exact first.symm
  | error error =>
      rw [onlyFrames] at opened
      split at opened
      · cases opened
      · rename_i missing
        have refused := List.find?_eq_none.mp missing record member
        simp [sealing] at refused

/-- A line that such a cipher reads is as long as the frame of its entry. -/
theorem length_readLine {records : List (AuditEntry Time × Vector UInt8 12)}
    (reads : Reads libraries records)
    (tag : ∀ nonce plaintext ciphertext, cipher.encrypt log.key nonce plaintext =
      .ok ciphertext → ciphertext.length = plaintext.length + 16)
    {line : List UInt8} {entry : AuditEntry Time}
    (read : log.readLine libraries ⟨cipher.encrypt, onlyFrames libraries cipher log records⟩ line =
      .ok (some entry)) :
    line.length = (entry.toValue libraries).bytes.length + 28 := by
  rw [readLine] at read
  split at read
  · cases read
  · rename_i long
    dsimp only at read
    cases opened : onlyFrames libraries cipher log records log.key (line.take 12)
        (line.drop 12) with
    | error error =>
        rw [opened] at read
        cases read
    | ok plaintext =>
        obtain ⟨record, known, nonce, sealed, rfl⟩ := onlyFrames_ok opened
        obtain ⟨time, document⟩ := reads record known
        rw [opened] at read
        dsimp only at read
        rw [document] at read
        dsimp only at read
        rw [AuditEntry.ofDocument_toValue libraries record.1 time] at read
        obtain rfl := Option.some.inj (Except.ok.inj read)
        have size := tag _ _ _ sealed
        rw [List.length_drop] at size
        omega

theorem length_frame {entry : AuditEntry Time} {nonce : Vector UInt8 12} {frame : List UInt8}
    (tag : ∀ nonce plaintext ciphertext, cipher.encrypt log.key nonce plaintext =
      .ok ciphertext → ciphertext.length = plaintext.length + 16)
    (framed : log.frame libraries cipher entry nonce = .ok frame) :
    frame.length = (entry.toValue libraries).bytes.length + 28 := by
  obtain ⟨ciphertext, sealed, rfl⟩ := frame_ok framed
  have size := tag _ _ _ sealed
  rw [List.length_append, Vector.length_toList, size]
  omega

/-- A log that every cipher of its records reads back has no newline inside a frame. -/
theorem clean_of_readAll {records : List (AuditEntry Time × Vector UInt8 12)}
    {file : Option (List UInt8)} (appended : log.appendAll libraries cipher none records = .ok file)
    (reads : Reads libraries records)
    (tag : ∀ nonce plaintext ciphertext, cipher.encrypt log.key nonce plaintext =
      .ok ciphertext → ciphertext.length = plaintext.length + 16)
    (read : log.readAll libraries ⟨cipher.encrypt, onlyFrames libraries cipher log records⟩ file =
      .ok (records.map Prod.fst)) :
    ∀ record ∈ records, ∀ frame,
      log.frame libraries cipher record.1 record.2 = .ok frame → 0x0A ∉ frame := by
  obtain ⟨frames, framed, same⟩ := appendAll_ok appended
  rw [readAll_eq, same, Option.getD_none, List.nil_append, Separated.read_write] at read
  obtain ⟨kept, part, lines⟩ := readLines_ok read
  have within := part.trans List.filter_sublist
  have readLengths : kept.map List.length =
      (records.map Prod.fst).map fun entry => (entry.toValue libraries).bytes.length + 28 := by
    rw [← List.forall₂_eq_eq_eq, List.forall₂_map_left_iff, List.forall₂_map_right_iff]
    exact lines.imp fun line entry own => length_readLine reads tag own
  have frameLengths : frames.map List.length =
      (records.map Prod.fst).map fun entry => (entry.toValue libraries).bytes.length + 28 := by
    rw [List.map_map, ← List.forall₂_eq_eq_eq, List.forall₂_map_left_iff,
      List.forall₂_map_right_iff]
    exact framed.flip.imp fun frame record own => length_frame tag own
  have long : (kept.map List.length).sum = (frames.map List.length).sum := by
    rw [readLengths, frameLengths]
  intro record member frame own
  exact Separated.clean_of_length within long frame (framed.frame_mem member own)

/-- The log of records is read back for every cipher that opens them exactly when no nonce and no
ciphertext has a newline. -/
theorem readAll_appendAll (libraries : AuditLibraries Time) (cipher : AuditCipher) (log : AuditLog)
    (records : List (AuditEntry Time × Vector UInt8 12)) (file : Option (List UInt8))
    (appended : log.appendAll libraries cipher none records = .ok file)
    (reads : Reads libraries records)
    (undoes : ∀ nonce plaintext ciphertext, cipher.encrypt log.key nonce plaintext =
      .ok ciphertext → cipher.decrypt log.key nonce ciphertext = .ok plaintext)
    (tag : ∀ nonce plaintext ciphertext, cipher.encrypt log.key nonce plaintext =
      .ok ciphertext → ciphertext.length = plaintext.length + 16) :
    (∀ decrypt, log.Opens libraries ⟨cipher.encrypt, decrypt⟩ records →
      log.readAll libraries ⟨cipher.encrypt, decrypt⟩ file = .ok (records.map Prod.fst)) ↔
    ∀ record ∈ records, ∀ frame,
      log.frame libraries cipher record.1 record.2 = .ok frame → 0x0A ∉ frame := by
  constructor
  · intro read
    have opens : log.Opens libraries ⟨cipher.encrypt, onlyFrames libraries cipher log records⟩
        records := opens_onlyFrames undoes
    exact clean_of_readAll appended reads tag (read _ opens)
  · intro clean decrypt opens
    have same : ∀ file records, log.appendAll libraries ⟨cipher.encrypt, decrypt⟩ file records =
        log.appendAll libraries cipher file records := by
      intro file records
      induction records generalizing file with
      | nil => rfl
      | cons record rest ih =>
          simp only [appendAll, ih]
          rfl
    rw [← same] at appended
    exact readAll_of_clean appended reads opens clean

/-- A cipher that hides nothing and appends a tag of zeros. -/
def plainCipher : AuditCipher where
  encrypt _ _ plaintext := .ok (plaintext ++ List.replicate 16 0)
  decrypt _ _ ciphertext :=
    if 16 ≤ ciphertext.length then .ok (ciphertext.take (ciphertext.length - 16))
    else .error "aead::Error"

theorem plainCipher_undoes (key nonce plaintext ciphertext : List UInt8)
    (sealed : plainCipher.encrypt key nonce plaintext = .ok ciphertext) :
    plainCipher.decrypt key nonce ciphertext = .ok plaintext := by
  obtain rfl := Except.ok.inj sealed
  simp [plainCipher]

theorem plainCipher_tag (key nonce plaintext ciphertext : List UInt8)
    (sealed : plainCipher.encrypt key nonce plaintext = .ok ciphertext) :
    ciphertext.length = plaintext.length + 16 := by
  obtain rfl := Except.ok.inj sealed
  simp

def sampleEntry : AuditEntry Nat where
  ts := 0
  capability := "fs.read"
  paramsSummary := "x"
  ok := true
  durationMs := 7
  deviceId := "d"

/-- The document of the sample entry, and the clock of its start. -/
def sampleLibraries : AuditLibraries Nat :=
  let value : Value := .object [("ts", .string "1970-01-01T00:00:00Z"),
    ("capability", .string "fs.read"), ("params_summary", .string "x"), ("ok", .bool true),
    ("duration_ms", .ofNat 7), ("device_id", .string "d")]
  { spellTime _ := "1970-01-01T00:00:00Z"
    readTime text := if text = "1970-01-01T00:00:00Z" then some 0 else none
    document bytes := if bytes = value.bytes then .ok value
      else .error "expected value at line 1 column 1"
    entryMessage _ := "missing field" }

theorem reads_sample (nonces : List (Vector UInt8 12)) :
    Reads sampleLibraries (nonces.map fun nonce => (sampleEntry, nonce)) := by
  intro record member
  obtain ⟨nonce, -, rfl⟩ := List.mem_map.mp member
  exact ⟨rfl, if_pos rfl⟩

theorem readAll_appendAll_sample :
    ∃ file, AuditLog.appendAll sampleLibraries plainCipher ⟨[]⟩ none
        [(sampleEntry, Vector.replicate 12 1), (sampleEntry, Vector.replicate 12 2)] = .ok file ∧
      ∀ decrypt, AuditLog.Opens sampleLibraries ⟨plainCipher.encrypt, decrypt⟩ ⟨[]⟩
          [(sampleEntry, Vector.replicate 12 1), (sampleEntry, Vector.replicate 12 2)] →
        AuditLog.readAll sampleLibraries ⟨plainCipher.encrypt, decrypt⟩ ⟨[]⟩ file =
          .ok [sampleEntry, sampleEntry] := by
  refine ⟨_, rfl, ?_⟩
  refine (readAll_appendAll sampleLibraries plainCipher ⟨[]⟩ _ _ rfl
    (reads_sample [Vector.replicate 12 1, Vector.replicate 12 2]) (plainCipher_undoes [])
    (plainCipher_tag [])).mpr ?_
  intro record member frame framed
  rcases List.mem_cons.mp member with rfl | inside
  · obtain rfl := Except.ok.inj framed
    decide
  · obtain rfl := List.mem_singleton.mp inside
    obtain rfl := Except.ok.inj framed
    decide

/-- A nonce that starts with a newline cuts its frame. -/
def newlineNonce : Vector UInt8 12 := #v[10, 1, 1, 1, 1, 1, 1, 1, 1, 1, 1, 1]

theorem readAll_newline :
    (∀ nonce plaintext ciphertext, plainCipher.encrypt [] nonce plaintext = .ok ciphertext →
      plainCipher.decrypt [] nonce ciphertext = .ok plaintext) ∧
    Reads sampleLibraries [(sampleEntry, newlineNonce)] ∧
    ∃ file, AuditLog.appendAll sampleLibraries plainCipher ⟨[]⟩ none
        [(sampleEntry, newlineNonce)] = .ok file ∧
      AuditLog.readAll sampleLibraries plainCipher ⟨[]⟩ file ≠ .ok [sampleEntry] := by
  refine ⟨plainCipher_undoes [], reads_sample [newlineNonce], _, rfl, ?_⟩
  decide +kernel

end AuditLog

end Daemon
