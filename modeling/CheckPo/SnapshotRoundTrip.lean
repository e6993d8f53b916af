/-
A prepared snapshot, stored and loaded.  Everything the writer checks, the
reader accepts; what the reader checks beyond it are the limits of its
validation cache and the four-digit years of RFC 3339.
-/
import CheckPo.SnapshotStore

namespace CheckPo

/-- The instants whose UTC year has four digits: 0000-01-01T00:00:00Z up to
9999-12-31T23:59:59Z. -/
def FourDigitYear (seconds : Int64) : Prop :=
  -62167219200 ≤ seconds.toInt ∧ seconds.toInt ≤ 253402300799

/-- What the `chrono` crate documents of the two functions: an instant of a
four-digit year is read back from its text, and the signed text of any other
year is no RFC 3339 date. -/
structure Chrono.Lawful (chrono : Chrono) : Prop where
  parse_canonical : ∀ seconds nanos, FourDigitYear seconds → nanos < 1000000000 →
    ∃ text, chrono.canonicalUtc seconds nanos = some text ∧
      chrono.parseFromRfc3339 text = some (seconds, nanos)
  canonical_outside : ∀ seconds nanos text, ¬ FourDigitYear seconds →
    chrono.canonicalUtc seconds nanos = some text → chrono.parseFromRfc3339 text = none

/-- The same instant in canonical UTC form. -/
def Chrono.canonical (chrono : Chrono) (value : String) : String :=
  ((chrono.parseFromRfc3339 value).bind fun parsed =>
    chrono.canonicalUtc parsed.1 parsed.2).getD value

def SnapshotEntry.canonical (chrono : Chrono) (entry : SnapshotEntry) : SnapshotEntry :=
  { entry with modifiedAtUtc := chrono.canonical entry.modifiedAtUtc }

/-- The snapshot with its timestamps in canonical UTC form. -/
def SnapshotFile.canonical (chrono : Chrono) (snapshot : SnapshotFile) : SnapshotFile :=
  { snapshot with
    createdAtUtc := chrono.canonical snapshot.createdAtUtc
    files := snapshot.files.map (SnapshotEntry.canonical chrono) }

/-- The files' manifest entries in the order of their portable keys. -/
def manifestRange (chrono : Chrono) (tables : UnicodeTables) (snapshot : SnapshotFile) :
    List KeyedEntry :=
  match snapshot.files.mapM (snapshotEntryToManifest chrono) with
  | .error _ => []
  | .ok entries =>
      match entries.mapM (keyedEntry tables) with
      | .error _ => []
      | .ok keyed => sortByKey keyed

/-- The tree of a range fits an empty validation cache: the number of its chunks,
and the heap that one cache entry for each of them is estimated to take. -/
def FitsReader (range : List KeyedEntry) : Prop :=
  (radixRanges manifestLeafTargetBytes (maxManifestDepth + 1) range).length ≤
      maxManifestValidationChunks ∧
    ((radixRanges manifestLeafTargetBytes (maxManifestDepth + 1) range).map fun part =>
      33 + 80 + (firstKey part).length + (lastKey part).length + 64).sum ≤
      maxManifestValidationCacheBytes

/-- An instant of a four-digit UTC year, if it is one at all. -/
def ReadableTimestamp (chrono : Chrono) (value : String) : Prop :=
  ∀ parsed, chrono.parseFromRfc3339 value = some parsed → FourDigitYear parsed.1

structure LoadableSnapshot (chrono : Chrono) (tables : UnicodeTables)
    (snapshot : SnapshotFile) : Prop where
  fits : FitsReader (manifestRange chrono tables snapshot)
  created : ReadableTimestamp chrono snapshot.createdAtUtc
  modified : ∀ file ∈ snapshot.files, ReadableTimestamp chrono file.modifiedAtUtc

section Snapshot

variable {chrono : Chrono} {tables : UnicodeTables} {blake3 : Bytes → Digest32}

/-- Loading returns this result, given enough turns and items. -/
def Loads (chrono : Chrono) (tables : UnicodeTables) (blake3 : Bytes → Digest32)
    (repository : SnapshotRepository) (snapshotId : SnapshotId)
    (result : CheckPoResult SnapshotFile) : Prop :=
  ∃ bound, ∀ turns items, bound ≤ turns → bound ≤ items →
    loadSnapshot chrono tables blake3 repository snapshotId turns items = some result

/-! Timestamps. -/

theorem parseTimestamp_eq_ok {snapshotId : SnapshotId} {field value : String}
    {timestamp : Timestamp} :
    parseTimestamp chrono snapshotId field value = .ok timestamp ↔
      chrono.parseFromRfc3339 value = some (timestamp.unixSeconds, timestamp.nanoseconds) ∧
        timestamp.nanoseconds < 1000000000 := by
  simp only [parseTimestamp, except_bind_eq_ok, orError_eq_ok, codecError_eq_ok,
    Timestamp.new, except_guard_eq_ok, Except.ok.injEq]
  constructor
  · rintro ⟨parsed, hparsed, hnanos, rfl⟩
    exact ⟨hparsed, UInt32.not_le.mp hnanos⟩
  · rintro ⟨hparsed, hnanos⟩
    exact ⟨_, hparsed, UInt32.not_le.mpr hnanos, rfl⟩

theorem formatTimestamp_eq_ok {snapshotId : SnapshotId} {field text : String}
    {timestamp : Timestamp} :
    formatTimestamp chrono snapshotId field timestamp = .ok text ↔
      chrono.canonicalUtc timestamp.unixSeconds timestamp.nanoseconds = some text := by
  rw [formatTimestamp, orError_eq_ok]

/-- Whether a timestamp parses does not depend on what the error would name. -/
theorem parseTimestamp_again {snapshotId other : SnapshotId} {field value : String}
    {timestamp : Timestamp}
    (h : parseTimestamp chrono snapshotId field value = .ok timestamp) :
    parseTimestamp chrono other field value = .ok timestamp :=
  parseTimestamp_eq_ok.mpr (parseTimestamp_eq_ok.mp h)

/-- A readable timestamp is written in canonical form and read back. -/
theorem format_of_readable (hchrono : chrono.Lawful) {value : String}
    {snapshotId : SnapshotId} {field : String} {timestamp : Timestamp}
    (hparse : parseTimestamp chrono snapshotId field value = .ok timestamp)
    (hreadable : ReadableTimestamp chrono value) :
    chrono.canonicalUtc timestamp.unixSeconds timestamp.nanoseconds =
        some (chrono.canonical value) ∧
      parseTimestamp chrono snapshotId field (chrono.canonical value) = .ok timestamp := by
  obtain ⟨hparsed, hnanos⟩ := parseTimestamp_eq_ok.mp hparse
  obtain ⟨text, hformat, hback⟩ :=
    hchrono.parse_canonical _ _ (hreadable _ hparsed) hnanos
  have hcanonical : chrono.canonical value = text := by
    rw [Chrono.canonical, hparsed, Option.bind_some, hformat, Option.getD_some]
  rw [hcanonical]
  exact ⟨hformat, parseTimestamp_eq_ok.mpr ⟨hback, hnanos⟩⟩

/-- A timestamp whose canonical text is read back was readable. -/
theorem readable_of_format (hchrono : chrono.Lawful) {value text field : String}
    {snapshotId other : SnapshotId} {timestamp again : Timestamp}
    (hparse : parseTimestamp chrono snapshotId field value = .ok timestamp)
    (hformat : chrono.canonicalUtc timestamp.unixSeconds timestamp.nanoseconds = some text)
    (hback : parseTimestamp chrono other field text = .ok again) :
    ReadableTimestamp chrono value := by
  intro parsed hparsed
  rw [(parseTimestamp_eq_ok.mp hparse).1, Option.some.injEq] at hparsed
  subst hparsed
  by_contra houtside
  have hnone := hchrono.canonical_outside _ _ _ houtside hformat
  rw [(parseTimestamp_eq_ok.mp hback).1] at hnone
  cases hnone

/-! Validation of a snapshot file. -/

theorem validateSnapshotEntry_eq_ok {snapshotId : SnapshotId} {paths after : PortablePaths}
    {file : SnapshotEntry} :
    validateSnapshotEntry chrono tables snapshotId paths file = .ok after ↔
      ∃ key, portablePathKeyV1 tables file.path.text = .ok key ∧
        ¬ (paths.get key).any (fun existing => existing ≠ file.path) = true ∧
        (∃ timestamp, parseTimestamp chrono snapshotId "modifiedAtUtc"
          file.modifiedAtUtc = .ok timestamp) ∧
        file.sizeBytes = file.contentSizeBytes ∧ paths.insert key file.path = after := by
  simp only [validateSnapshotEntry, except_bind_eq_ok, snapshotV2Error_eq_ok,
    except_guard_eq_ok, except_pure_eq_ok, ne_eq, not_not, exists_and_right]

theorem validateSnapshotFile_eq_ok {snapshotId : SnapshotId} {snapshot : SnapshotFile}
    {result : Unit} :
    validateSnapshotFile chrono tables snapshotId snapshot = .ok result ↔
      snapshot.schemaVersion = snapshotSchemaVersionV2 ∧
        (∃ timestamp, parseTimestamp chrono snapshotId "createdAtUtc"
          snapshot.createdAtUtc = .ok timestamp) ∧
        ¬ (trim snapshot.name = "" ∨ trim snapshot.name ≠ snapshot.name) ∧
        snapshot.trackedRoots = ["Assets", "Packages", "ProjectSettings"] ∧
        validateFileOrder snapshotId snapshot.files = .ok () ∧
        ∃ paths, snapshot.files.foldlM
            (validateSnapshotEntry chrono tables snapshotId) [] = .ok paths ∧
          validateAncestors snapshotId paths = .ok () := by
  simp only [validateSnapshotFile, except_bind_eq_ok, except_guard_eq_ok, ne_eq, not_not,
    exists_and_right]
  constructor
  · rintro ⟨hschema, hcreated, hname, hroots, ⟨_, horder⟩, hpaths⟩
    exact ⟨hschema, hcreated, hname, hroots, horder, hpaths⟩
  · rintro ⟨hschema, hcreated, hname, hroots, horder, hpaths⟩
    exact ⟨hschema, hcreated, hname, hroots, ⟨(), horder⟩, hpaths⟩

/-- Each file of a valid snapshot has a timestamp and the size of its content. -/
theorem validateSnapshotEntries_files {snapshotId : SnapshotId}
    {files : List SnapshotEntry} {paths after : PortablePaths}
    (h : files.foldlM (validateSnapshotEntry chrono tables snapshotId) paths = .ok after) :
    ∀ file ∈ files, (∃ timestamp, parseTimestamp chrono snapshotId "modifiedAtUtc"
        file.modifiedAtUtc = .ok timestamp) ∧ file.sizeBytes = file.contentSizeBytes := by
  induction files generalizing paths with
  | nil => simp
  | cons file files ih =>
      rw [List.foldlM_cons, except_bind_eq_ok] at h
      obtain ⟨middle, hfile, hrest⟩ := h
      obtain ⟨_, -, -, htimestamp, hsize, -⟩ := validateSnapshotEntry_eq_ok.mp hfile
      rw [List.forall_mem_cons]
      exact ⟨⟨htimestamp, hsize⟩, ih hrest⟩

/-- Besides those, the loop over the files looks at their paths only. -/
theorem validateSnapshotEntries_transfer {snapshotId other : SnapshotId}
    {files files' : List SnapshotEntry} {paths after : PortablePaths}
    (h : files.foldlM (validateSnapshotEntry chrono tables snapshotId) paths = .ok after)
    (hpaths : files'.map SnapshotEntry.path = files.map SnapshotEntry.path)
    (hfiles : ∀ file ∈ files', (∃ timestamp, parseTimestamp chrono other "modifiedAtUtc"
        file.modifiedAtUtc = .ok timestamp) ∧ file.sizeBytes = file.contentSizeBytes) :
    files'.foldlM (validateSnapshotEntry chrono tables other) paths = .ok after := by
  induction files generalizing files' paths with
  | nil =>
      rw [List.map_nil, List.map_eq_nil_iff] at hpaths
      exact hpaths ▸ h
  | cons file files ih =>
      obtain ⟨file', files', rfl⟩ : ∃ head tail, files' = head :: tail := by
        cases files' with
        | nil => cases hpaths
        | cons head tail => exact ⟨head, tail, rfl⟩
      rw [List.map_cons, List.map_cons, List.cons.injEq] at hpaths
      rw [List.forall_mem_cons] at hfiles
      rw [List.foldlM_cons, except_bind_eq_ok] at h ⊢
      obtain ⟨middle, hfile, hrest⟩ := h
      refine ⟨middle, ?_, ih hrest hpaths.2 hfiles.2⟩
      obtain ⟨key, hkey, hnew, -, -, hinsert⟩ := validateSnapshotEntry_eq_ok.mp hfile
      exact validateSnapshotEntry_eq_ok.mpr ⟨key, hpaths.1 ▸ hkey, hpaths.1 ▸ hnew,
        hfiles.1.1, hfiles.1.2, hpaths.1 ▸ hinsert⟩

theorem validateFileOrder_eq_ok {snapshotId : SnapshotId} {files : List SnapshotEntry}
    {result : Unit} :
    validateFileOrder snapshotId files = .ok result ↔
      (files.map SnapshotEntry.path).Pairwise fun left right =>
        utf8 left.text < utf8 right.text := by
  have htrans : ∀ a b c : TrackedUnityFilePath, utf8 a.text < utf8 b.text →
      utf8 b.text < utf8 c.text → utf8 a.text < utf8 c.text :=
    fun _ _ _ hab hbc => lt_trans hab hbc
  induction files with
  | nil => simp [validateFileOrder]
  | cons left rest ih =>
      cases rest with
      | nil => simp [validateFileOrder]
      | cons right rest =>
          simp only [validateFileOrder, except_guard_eq_ok, ih]
          simp only [List.map_cons, List.pairwise_cons, List.forall_mem_cons]
          constructor
          · rintro ⟨hne, hle, hrest⟩
            have hlt : utf8 left.path.text < utf8 right.path.text :=
              lt_of_le_of_ne (not_lt.mp hle) fun heq =>
                hne (TrackedUnityFilePath.text_injective (utf8_injective heq))
            exact ⟨⟨hlt, fun path hpath => htrans _ _ _ hlt (hrest.1 path hpath)⟩, hrest⟩
          · rintro ⟨⟨hlt, -⟩, hrest⟩
            exact ⟨fun heq => absurd (heq ▸ hlt) (lt_irrefl _), not_lt.mpr hlt.le, hrest⟩

theorem validateAncestors_eq_ok {snapshotId : SnapshotId} {paths : PortablePaths}
    {result : Unit} :
    validateAncestors snapshotId paths = .ok result ↔
      ∀ entry ∈ paths, paths.ancestor entry.1 = none := by
  rw [validateAncestors, forM_eq_ok_iff]
  simp only [List.mem_mergeSort]
  refine forall₂_congr fun entry _ => ?_
  cases paths.ancestor entry.1 <;> simp

/-- A valid snapshot stays valid when only its timestamps change, into others that
parse. -/
theorem validateSnapshotFile_transfer {snapshotId other : SnapshotId}
    {snapshot snapshot' : SnapshotFile}
    (h : validateSnapshotFile chrono tables snapshotId snapshot = .ok ())
    (hschema : snapshot'.schemaVersion = snapshot.schemaVersion)
    (hname : snapshot'.name = snapshot.name)
    (hroots : snapshot'.trackedRoots = snapshot.trackedRoots)
    (hpaths : snapshot'.files.map SnapshotEntry.path =
      snapshot.files.map SnapshotEntry.path)
    (hcreated : ∃ timestamp, parseTimestamp chrono other "createdAtUtc"
      snapshot'.createdAtUtc = .ok timestamp)
    (hfiles : ∀ file ∈ snapshot'.files, (∃ timestamp, parseTimestamp chrono other
      "modifiedAtUtc" file.modifiedAtUtc = .ok timestamp) ∧
      file.sizeBytes = file.contentSizeBytes) :
    validateSnapshotFile chrono tables other snapshot' = .ok () := by
  obtain ⟨hversion, -, htrimmed, htracked, horder, paths, hentries, hancestors⟩ :=
    validateSnapshotFile_eq_ok.mp h
  refine validateSnapshotFile_eq_ok.mpr ⟨hschema.trans hversion, hcreated, hname ▸ htrimmed,
    hroots.trans htracked, ?_, paths,
    validateSnapshotEntries_transfer hentries hpaths hfiles,
    validateAncestors_eq_ok.mpr (validateAncestors_eq_ok.mp hancestors)⟩
  rw [validateFileOrder_eq_ok] at horder ⊢
  rwa [hpaths]

/-! Storing. -/

theorem length_encodeNode_le {node : ManifestNode} {stored : Bytes}
    (h : encodeNode node = .ok stored) : stored.length ≤ maxManifestChunkBytes := by
  obtain ⟨-, -, _, -, _, -, _, -, _, -, henvelope⟩ := encodeNode_eq_ok.mp h
  rw [length_envelope henvelope]
  exact (envelope_eq_ok.mp henvelope).1

/-- A chunk that has its content id and that the bounded read returns. -/
structure StoredChunk (blake3 : Bytes → Digest32) (chunk : ManifestRef × Bytes) : Prop where
  id_eq : manifestId blake3 chunk.1.kind chunk.2 = .ok chunk.1.id
  length_le : chunk.2.length ≤ maxManifestChunkBytes

theorem Canonical.chunk_stored {target levels : Nat} {range : List KeyedEntry}
    {root : ManifestRef} {added : Chunks}
    (h : Canonical blake3 target levels range root added) :
    ∀ chunk ∈ added, StoredChunk blake3 chunk := by
  induction levels generalizing range root added with
  | zero => exact h.elim
  | succ levels ih =>
      by_cases hleaf : RangeIsLeaf target range
      · obtain ⟨-, -, bytes, hbytes, rfl, rfl⟩ := (canonical_leaf hleaf).mp h
        intro chunk hchunk
        rw [List.mem_singleton.mp hchunk]
        exact ⟨rfl, length_encodeLeaf_le hbytes⟩
      · obtain ⟨-, -, -, built, hbuilt, bytes, hbytes, rfl, rfl⟩ :=
          (canonical_node hleaf).mp h
        intro chunk hchunk
        rw [List.mem_append] at hchunk
        rcases hchunk with hchunk | hchunk
        · obtain ⟨below, hbelow, hmem⟩ := List.mem_flatten.mp hchunk
          obtain ⟨child, hchild, rfl⟩ := List.mem_map.mp hbelow
          obtain ⟨part, -, hpart⟩ := forall₂_mem_right hbuilt hchild
          exact ih hpart chunk hmem
        · rw [List.mem_singleton.mp hchunk]
          exact ⟨rfl, length_encodeNode_le hbytes⟩

/-- What storing a chunk does: it can be read, and every other chunk and the roots
are as before. -/
theorem storeManifestChunk_ok (repository : SnapshotRepository)
    {chunk : ManifestRef × Bytes} (hchunk : StoredChunk blake3 chunk) :
    ∃ after, repository.storeManifestChunk blake3 chunk.1 chunk.2 = .ok after ∧
      after.loadManifestChunk chunk.1 = .ok chunk.2 ∧
      ∀ reference, reference ≠ chunk.1 → ∀ bytes,
        repository.loadManifestChunk reference = .ok bytes →
        after.loadManifestChunk reference = .ok bytes := by
  obtain ⟨⟨kind, id⟩, bytes⟩ := chunk
  obtain ⟨hid, hlength⟩ := hchunk
  have hread : ∀ path, SnapshotRepository.readBytesBounded path (some bytes)
      maxManifestChunkBytes = .ok bytes := fun path => by
    rw [SnapshotRepository.readBytesBounded, if_neg (not_lt.mpr hlength)]
  simp only [SnapshotRepository.storeManifestChunk, hid, codecError, except_bind_ok, ne_eq,
    not_true_eq_false, if_false]
  cases kind with
  | root => cases hid
  | node =>
      refine ⟨_, rfl, ?_, ?_⟩
      · simp [SnapshotRepository.loadManifestChunk, hread, SnapshotRepository.coreToV2Error]
      · rintro ⟨kind', id'⟩ hne bytes' hload
        cases kind' with
        | node =>
            have hid' : id' ≠ id := fun heq => hne (heq ▸ rfl)
            simpa [SnapshotRepository.loadManifestChunk, Function.update_of_ne hid',
              SnapshotRepository.manifestNodePath] using hload
        | leaf => exact hload
        | root => exact hload
  | leaf =>
      refine ⟨_, rfl, ?_, ?_⟩
      · simp [SnapshotRepository.loadManifestChunk, hread, SnapshotRepository.coreToV2Error]
      · rintro ⟨kind', id'⟩ hne bytes' hload
        cases kind' with
        | leaf =>
            have hid' : id' ≠ id := fun heq => hne (heq ▸ rfl)
            simpa [SnapshotRepository.loadManifestChunk, Function.update_of_ne hid',
              SnapshotRepository.manifestLeafPath] using hload
        | node => exact hload
        | root => exact hload

/-- Chunks with different references are all stored and can all be read. -/
theorem storeChunks_ok {chunks : Chunks} (repository : SnapshotRepository)
    (hnodup : Chunks.NodupKeys chunks) (hchunks : ∀ chunk ∈ chunks, StoredChunk blake3 chunk) :
    ∃ after, chunks.foldlM (fun repository chunk =>
        SnapshotRepository.storeManifestChunk blake3 repository chunk.1 chunk.2) repository =
          .ok after ∧
      Holds (sourceTable after.loadManifestChunk) chunks ∧
      ∀ reference, reference ∉ chunks.map Prod.fst → ∀ bytes,
        repository.loadManifestChunk reference = .ok bytes →
        after.loadManifestChunk reference = .ok bytes := by
  induction chunks generalizing repository with
  | nil => exact ⟨repository, rfl, by simp [Holds], fun _ _ _ hload => hload⟩
  | cons chunk chunks ih =>
      rw [Chunks.NodupKeys, List.map_cons, List.nodup_cons] at hnodup
      rw [List.forall_mem_cons] at hchunks
      obtain ⟨middle, hstore, hload, hkept⟩ := storeManifestChunk_ok repository hchunks.1
      obtain ⟨after, hrest, hholds, hkeptRest⟩ := ih middle hnodup.2 hchunks.2
      refine ⟨after, ?_, ?_, ?_⟩
      · rw [List.foldlM_cons, hstore]
        exact hrest
      · rw [Holds, List.forall_mem_cons]
        exact ⟨sourceTable_eq_some.mpr (hkeptRest _ hnodup.1 _ hload), hholds⟩
      · intro reference hreference bytes hbefore
        rw [List.map_cons, List.mem_cons, not_or] at hreference
        exact hkeptRest reference hreference.2 bytes
          (hkept reference hreference.1 bytes hbefore)

/-! Loading. -/

theorem loadSnapshot_eq_ok {repository : SnapshotRepository} {snapshotId : SnapshotId}
    {turns items : Nat} {snapshot : SnapshotFile} :
    loadSnapshot chrono tables blake3 repository snapshotId turns items =
        some (.ok snapshot) ↔
      ∃ bytes, repository.readSnapshotBytes snapshotId = .ok bytes ∧
      ∃ root, decodeSnapshotRootHeader chrono blake3 snapshotId bytes = .ok root ∧
        validateManifest blake3 tables repository.loadManifestChunk root.manifest
          root.summary = .ok () ∧
      ∃ files, (manifestIter root.manifest).collectSnapshot chrono blake3
          repository.loadManifestChunk snapshotId turns items = some (.ok files) ∧
        snapshot = ⟨snapshotSchemaVersionV2, root.projectId, root.parentSnapshotId,
          root.createdAtUtc, root.name, root.toolVersion,
          ["Assets", "Packages", "ProjectSettings"], sortByPath files⟩ ∧
        validateSnapshotFile chrono tables snapshotId snapshot = .ok () := by
  unfold loadSnapshot
  cases hread : repository.readSnapshotBytes snapshotId with
  | error error => simp
  | ok bytes =>
      simp only [decodeSnapshotRootBytes, Except.ok.injEq, exists_eq_left']
      cases hheader : decodeSnapshotRootHeader chrono blake3 snapshotId bytes with
      | error error => simp
      | ok root =>
          simp only [Except.ok.injEq, exists_eq_left', validateManifest]
          cases hvalid : (validateManifestCached blake3 tables repository.loadManifestChunk
              root.manifest root.summary .empty).1 with
          | error error => simp [snapshotV2Error]
          | ok _ =>
              simp only [snapshotV2Error, Option.map_eq_some_iff, except_bind_eq_ok,
                except_pure_eq_ok, true_and]
              constructor
              · rintro ⟨result, hcollect, files, rfl, _, hvalidate, rfl⟩
                exact ⟨files, hcollect, rfl, hvalidate⟩
              · rintro ⟨files, hcollect, rfl, hvalidate⟩
                exact ⟨.ok files, hcollect, files, rfl, (), hvalidate, rfl⟩

/-- Collecting converts the entries that the iterator yields. -/
theorem collectSnapshot_of_collect {source : ManifestChunkSource} {snapshotId : SnapshotId}
    {turns items : Nat} {iter : ManifestIter} {entries : List ManifestEntry}
    (h : iter.collect blake3 source turns items = some (.ok entries)) :
    iter.collectSnapshot chrono blake3 source snapshotId turns items =
      some (entries.mapM (manifestEntryToSnapshot chrono snapshotId)) := by
  induction items generalizing iter entries with
  | zero => cases h
  | succ items ih =>
      rw [ManifestIter.collect] at h
      rw [ManifestIter.collectSnapshot]
      rcases hnext : iter.next blake3 source turns with _ | ⟨_ | (error | entry), next⟩
      · simp only [hnext, reduceCtorEq] at h
      · rw [hnext] at h
        cases h
        rfl
      · simp only [hnext, Option.some.injEq, reduceCtorEq] at h
      · rw [hnext] at h
        dsimp only at h
        rcases hrest : ManifestIter.collect blake3 source turns items next with
          _ | (error | rest)
        · simp only [hrest, reduceCtorEq] at h
        · simp only [hrest, Option.some.injEq, reduceCtorEq] at h
        · rw [hrest] at h
          cases h
          rw [List.mapM_cons]
          cases hentry : manifestEntryToSnapshot chrono snapshotId entry with
          | error error =>
              simp only [hentry]
              rfl
          | ok file =>
              simp only [hentry, ih hrest]
              cases rest.mapM (manifestEntryToSnapshot chrono snapshotId) <;> rfl

theorem decodeSnapshotRootHeader_encoded {root : SnapshotRoot} {bytes : Bytes}
    (h : encodeRoot root = .ok bytes) {header : SnapshotRootHeader} :
    decodeSnapshotRootHeader chrono blake3 (rootId blake3 bytes) bytes = .ok header ↔
      ∃ text, chrono.canonicalUtc root.created.unixSeconds root.created.nanoseconds =
          some text ∧
        (⟨root.projectId, root.parent, text, root.checkpointName, root.toolVersion,
          root.manifest, root.summary⟩ : SnapshotRootHeader) = header := by
  have hverify : verifyRootId blake3 (rootId blake3 bytes) bytes = .ok () := by
    rw [verifyRootId, if_neg (not_not.mpr rfl)]
  simp only [decodeSnapshotRootHeader, hverify, decodeRoot_encodeRoot h, h, codecError,
    except_bind_ok, ne_eq, not_true_eq_false, if_false, except_bind_eq_ok,
    formatTimestamp_eq_ok, except_pure_eq_ok]

theorem length_encodeRoot_le {root : SnapshotRoot} {bytes : Bytes}
    (h : encodeRoot root = .ok bytes) : bytes.length ≤ maxSnapshotFileBytes := by
  obtain ⟨-, _, -, _, -, _, -, henvelope⟩ := encodeRoot_eq_ok.mp h
  rw [length_envelope henvelope]
  exact (envelope_eq_ok.mp henvelope).1

theorem prepareSnapshot_eq_ok {snapshot : SnapshotFile} {prepared : PreparedSnapshot} :
    prepareSnapshot chrono tables blake3 snapshot = .ok prepared ↔
      validateSnapshotFile chrono tables validationId snapshot = .ok () ∧
      ∃ entries, snapshot.files.mapM (snapshotEntryToManifest chrono) = .ok entries ∧
      ∃ manifest, buildManifest blake3 tables entries = .ok manifest ∧
      ∃ created, parseTimestamp chrono validationId "createdAtUtc"
          snapshot.createdAtUtc = .ok created ∧
      ∃ rootBytes, encodeRoot ⟨snapshot.projectId, snapshot.parentSnapshotId, created,
          snapshot.name, snapshot.toolVersion, manifest.root, manifest.summary⟩ =
            .ok rootBytes ∧
        ⟨rootId blake3 rootBytes, rootBytes, manifest⟩ = prepared := by
  simp only [prepareSnapshot, except_bind_eq_ok, snapshotV2Error_eq_ok, codecError_eq_ok,
    except_pure_eq_ok]
  constructor
  · rintro ⟨_, hvalid, hrest⟩
    exact ⟨hvalid, hrest⟩
  · rintro ⟨hvalid, hrest⟩
    exact ⟨(), hvalid, hrest⟩

theorem snapshotEntryToManifest_eq_ok {file : SnapshotEntry} {entry : ManifestEntry} :
    snapshotEntryToManifest chrono file = .ok entry ↔
      parseTimestamp chrono validationId "modifiedAtUtc" file.modifiedAtUtc =
          .ok entry.modified ∧
        entry.exactPath = file.path.text ∧ entry.sizeBytes = file.sizeBytes ∧
        entry.objectId = file.contentHash := by
  simp only [snapshotEntryToManifest, except_bind_eq_ok, except_pure_eq_ok]
  constructor
  · rintro ⟨modified, hparse, rfl⟩
    exact ⟨hparse, rfl, rfl, rfl⟩
  · rintro ⟨hparse, hpath, hsize, hobject⟩
    refine ⟨entry.modified, hparse, ?_⟩
    rw [← hpath, ← hsize, ← hobject]

/-- The sizes of a file whose content has its size. -/
theorem content_eq {file : SnapshotEntry} (hsize : file.sizeBytes = file.contentSizeBytes) :
    SnapshotContent.whole file.contentHash file.sizeBytes = file.content := by
  rw [hsize, SnapshotEntry.contentHash, SnapshotEntry.contentSizeBytes]

/-! A stored manifest. -/

theorem fitsReader_nil : FitsReader [] := by
  have hranges : radixRanges manifestLeafTargetBytes (maxManifestDepth + 1) [] = [[]] := by
    rw [radixRanges, if_pos (by decide)]
  rw [FitsReader, hranges]
  decide

/-- An empty cache has room for a tree exactly when the tree fits the reader. -/
theorem fitsBeside_empty_iff {range : List KeyedEntry} {root : ManifestRef}
    {added : Chunks}
    (h : Canonical blake3 manifestLeafTargetBytes (maxManifestDepth + 1) range root added) :
    FitsBeside .empty range added ↔ FitsReader range := by
  have hnew : newEntries .empty range added = treeEntries range added := by
    rw [newEntries, List.filter_eq_self]
    intro entry _
    simp [ManifestValidationCache.empty, ManifestValidationCache.validatedReferences]
  have hlength := h.chunks_ranges.length_eq
  have htree : (treeEntries range added).map Prod.snd =
      (radixRanges manifestLeafTargetBytes (maxManifestDepth + 1) range).map
        (rangeInfo (maxManifestDepth + 1)) := by
    rw [treeEntries, List.map_snd_zip]
    simp [hlength]
  have htotal : estimatedTotal (treeEntries range added) =
      ((radixRanges manifestLeafTargetBytes (maxManifestDepth + 1) range).map fun part =>
        33 + 80 + (firstKey part).length + (lastKey part).length + 64).sum := by
    rw [estimatedTotal, show (fun entry : ManifestRef × ValidationInfo =>
      entry.2.estimatedBytes) = ValidationInfo.estimatedBytes ∘ Prod.snd from rfl,
      ← List.map_map, htree, List.map_map]
    rfl
  have hcount : (treeEntries range added).length =
      (radixRanges manifestLeafTargetBytes (maxManifestDepth + 1) range).length := by
    rw [← List.length_map (f := Prod.snd), htree, List.length_map]
  rw [FitsBeside, FitsReader, hnew, htotal, hcount]
  simp [ManifestValidationCache.empty, ManifestValidationCache.len]

/-- A source with the chunks of a built manifest accepts it when it fits the reader. -/
theorem ManifestOf.accepted_iff {source : ManifestChunkSource} {range : List KeyedEntry}
    {root : ManifestRef} {added : Chunks} {built : BuiltManifest}
    (h : ManifestOf blake3 manifestLeafTargetBytes range root added built)
    (hvalid : ValidRange tables range) (hfit : TotalsFit range)
    (hholds : Holds (sourceTable source) added) :
    validateManifest blake3 tables source built.root built.summary = .ok () ↔
      FitsReader range := by
  have hverified : Verified blake3 tables source (maxManifestDepth + 1) root
      (rangeInfo (maxManifestDepth + 1) range) range added :=
    ⟨hvalid, hfit, h.canonical, hholds, rfl⟩
  rw [h.root_eq, h.summary_eq, validateManifest, validateManifestCached_eq_ok cacheInv_empty,
    ← fitsBeside_empty_iff h.canonical]
  constructor
  · rintro ⟨range', added', hverified', -, hfits⟩
    obtain ⟨-, rfl, rfl⟩ := hverified.unique hverified'
    exact hfits
  · exact fun hfits => ⟨range, added, hverified, rfl, hfits⟩

/-- What a source that holds the chunks built for these entries answers. -/
structure StoredManifest (blake3 : Bytes → Digest32) (tables : UnicodeTables)
    (source : ManifestChunkSource) (entries : List ManifestEntry) (built : BuiltManifest)
    (range : List KeyedEntry) : Prop where
  perm : (range.map KeyedEntry.entry).Perm entries
  valid : ValidRange tables range
  yields : Yields blake3 source built.root (range.map KeyedEntry.entry)
  accepted_iff : validateManifest blake3 tables source built.root built.summary = .ok () ↔
    FitsReader range

theorem storeBuiltManifest_ok {entries : List ManifestEntry} {built : BuiltManifest}
    (h : buildManifest blake3 tables entries = .ok built) (repository : SnapshotRepository) :
    ∃ after, repository.storeBuiltManifest blake3 built = .ok after ∧
      ∃ range, StoredManifest blake3 tables after.loadManifestChunk entries built range := by
  by_cases hne : entries = []
  · subst hne
    obtain rfl : ⟨none, .zero, []⟩ = built := Except.ok.inj h
    refine ⟨repository, rfl, [], .refl _, ⟨by simp, .nil⟩, yields_none, ?_⟩
    simp [validateManifest, validateManifestCached, fitsReader_nil]
  · obtain ⟨range, root, added, hperm, hvalid, hfit, hmanifest⟩ := buildManifest_eq_ok hne h
    have hstored : ∀ chunk ∈ built.chunks, StoredChunk blake3 chunk := fun chunk hchunk =>
      hmanifest.canonical.chunk_stored chunk ((hmanifest.mem chunk).mp hchunk)
    obtain ⟨after, hstore, hholds, -⟩ := storeChunks_ok repository hmanifest.nodup hstored
    have hadded : Holds (sourceTable after.loadManifestChunk) added := fun chunk hchunk =>
      hholds chunk ((hmanifest.mem chunk).mpr hchunk)
    refine ⟨after, hstore, range, hperm, hvalid, ?_, hmanifest.accepted_iff hvalid hfit hadded⟩
    rw [hmanifest.root_eq]
    exact hmanifest.canonical.yields hadded hvalid

/-- The range of a stored manifest is the range of the snapshot's files. -/
theorem StoredManifest.range_eq {source : ManifestChunkSource} {snapshot : SnapshotFile}
    {entries : List ManifestEntry} {built : BuiltManifest} {range : List KeyedEntry}
    (h : StoredManifest blake3 tables source entries built range)
    (hentries : snapshot.files.mapM (snapshotEntryToManifest chrono) = .ok entries) :
    manifestRange chrono tables snapshot = range := by
  obtain ⟨keyed, hkeyed, hperm⟩ := mapM_perm h.perm.symm
    (mapM_keyedEntry_eq_ok.mpr ⟨rfl, h.valid.keyed⟩)
  simp only [manifestRange, hentries, hkeyed]
  exact sortByKey_eq hperm h.valid.ordered

/-! The files, converted and sorted again. -/

theorem manifestEntryToSnapshot_eq_ok {snapshotId : SnapshotId} {file : SnapshotEntry}
    {entry : ManifestEntry} (hentry : snapshotEntryToManifest chrono file = .ok entry)
    {loaded : SnapshotEntry} :
    manifestEntryToSnapshot chrono snapshotId entry = .ok loaded ↔
      ∃ text, chrono.canonicalUtc entry.modified.unixSeconds entry.modified.nanoseconds =
          some text ∧
        (⟨file.path, file.sizeBytes, text, .whole file.contentHash file.sizeBytes⟩ :
          SnapshotEntry) = loaded := by
  obtain ⟨-, hpath, hsize, hobject⟩ := snapshotEntryToManifest_eq_ok.mp hentry
  simp only [manifestEntryToSnapshot, hpath, TrackedUnityFilePath.parse_text, except_bind_ok,
    except_bind_eq_ok, formatTimestamp_eq_ok, except_pure_eq_ok, hsize, hobject]

/-- Sorting by path restores files whose paths increase. -/
theorem sortByPath_eq {files sorted : List SnapshotEntry} (hperm : files.Perm sorted)
    (hsorted : (sorted.map SnapshotEntry.path).Pairwise fun left right =>
      utf8 left.text < utf8 right.text) : sortByPath files = sorted := by
  rw [List.pairwise_map] at hsorted
  have hsort : (sortByPath files).Pairwise fun left right =>
      utf8 left.path.text ≤ utf8 right.path.text := by
    have h := @List.pairwise_mergeSort SnapshotEntry
      (fun left right => decide (utf8 left.path.text ≤ utf8 right.path.text))
      (fun a b c => by simpa using le_trans) (fun a b => by simpa using le_total _ _) files
    simpa [sortByPath] using h
  have hsortPerm : (sortByPath files).Perm sorted :=
    (List.mergeSort_perm files _).trans hperm
  refine List.Perm.eq_of_pairwise ?_ hsort (hsorted.imp fun hlt => le_of_lt hlt) hsortPerm
  intro left right hleft hright hlr hrl
  have hnodup : (sorted.map fun file => utf8 file.path.text).Nodup :=
    List.pairwise_map.mpr (hsorted.imp ne_of_lt)
  exact List.inj_on_of_nodup_map hnodup (hsortPerm.subset hleft) hright (le_antisymm hlr hrl)

/-- A repository in which a snapshot's root bytes and manifest are stored. -/
structure StoredSnapshot (chrono : Chrono) (tables : UnicodeTables)
    (blake3 : Bytes → Digest32) (snapshot : SnapshotFile) (prepared : PreparedSnapshot)
    (repository : SnapshotRepository) : Prop where
  root : repository.readSnapshotBytes prepared.snapshotId = .ok prepared.rootBytes
  manifest : ∃ entries range,
    snapshot.files.mapM (snapshotEntryToManifest chrono) = .ok entries ∧
      StoredManifest blake3 tables repository.loadManifestChunk entries prepared.manifest range

theorem storePreparedSnapshot_ok {snapshot : SnapshotFile} {prepared : PreparedSnapshot}
    (h : prepareSnapshot chrono tables blake3 snapshot = .ok prepared)
    (before : SnapshotRepository) :
    ∃ after, before.storePreparedSnapshot blake3 prepared = .ok after ∧
      StoredSnapshot chrono tables blake3 snapshot prepared after := by
  obtain ⟨-, entries, hentries, manifest, hmanifest, created, -, rootBytes, hroot, rfl⟩ :=
    prepareSnapshot_eq_ok.mp h
  obtain ⟨middle, hstore, range, hrange⟩ := storeBuiltManifest_ok hmanifest before
  refine ⟨{ middle with
    roots := Function.update middle.roots (rootId blake3 rootBytes) (some rootBytes) },
    ?_, ?_, entries, range, hentries, hrange⟩
  · simp [SnapshotRepository.storePreparedSnapshot, hstore,
      SnapshotRepository.publishSnapshotRoot]
  · simp [SnapshotRepository.readSnapshotBytes, SnapshotRepository.readBytesBounded,
      not_lt.mpr (length_encodeRoot_le hroot)]

/-- A snapshot that loads had readable timestamps and fits the reader. -/
theorem loadable_of_loads (hchrono : chrono.Lawful) {snapshot : SnapshotFile}
    {prepared : PreparedSnapshot} {repository : SnapshotRepository}
    (h : prepareSnapshot chrono tables blake3 snapshot = .ok prepared)
    (hstored : StoredSnapshot chrono tables blake3 snapshot prepared repository)
    {result : SnapshotFile}
    (hloads : Loads chrono tables blake3 repository prepared.snapshotId (.ok result)) :
    LoadableSnapshot chrono tables snapshot := by
  obtain ⟨-, entries, hentries, manifest, -, created, hcreated, rootBytes, hroot, rfl⟩ :=
    prepareSnapshot_eq_ok.mp h
  obtain ⟨entries', range, hentries', hmanifest⟩ := hstored.manifest
  cases hentries.symm.trans hentries'
  obtain ⟨bound, hbound⟩ := hloads
  obtain ⟨bound', hbound'⟩ := hmanifest.yields
  obtain ⟨bytes, hread, header, hheader, hvalid, files, hcollect, hresult, hvalidate⟩ :=
    loadSnapshot_eq_ok.mp (hbound (max bound bound') (max bound bound') (le_max_left _ _)
      (le_max_left _ _))
  cases hstored.root.symm.trans hread
  obtain ⟨text, hformat, rfl⟩ := (decodeSnapshotRootHeader_encoded hroot).mp hheader
  rw [collectSnapshot_of_collect (hbound' _ _ (le_max_right _ _) (le_max_right _ _)),
    Option.some.injEq, mapM_eq_ok_iff] at hcollect
  obtain ⟨-, ⟨again, hagain⟩, -, -, -, paths, hfold, -⟩ :=
    validateSnapshotFile_eq_ok.mp hvalidate
  subst hresult
  refine ⟨hmanifest.range_eq hentries ▸ hmanifest.accepted_iff.mp hvalid,
    readable_of_format hchrono hcreated hformat hagain, ?_⟩
  intro file hfile
  obtain ⟨entry, hentry, hconverted⟩ := forall₂_mem_left (mapM_eq_ok_iff.mp hentries) hfile
  obtain ⟨loaded, hloaded, hback⟩ :=
    forall₂_mem_left hcollect (hmanifest.perm.symm.subset hentry)
  obtain ⟨fileText, hfileFormat, rfl⟩ := (manifestEntryToSnapshot_eq_ok hconverted).mp hback
  obtain ⟨⟨timestamp, htimestamp⟩, -⟩ := validateSnapshotEntries_files hfold _
    (List.mem_mergeSort.mpr hloaded)
  exact readable_of_format hchrono (snapshotEntryToManifest_eq_ok.mp hconverted).1
    hfileFormat htimestamp

/-- The entries of readable files are converted into the files in canonical form. -/
theorem mapM_manifestEntryToSnapshot (hchrono : chrono.Lawful) (snapshotId : SnapshotId)
    {files : List SnapshotEntry} {entries : List ManifestEntry}
    (hentries : files.mapM (snapshotEntryToManifest chrono) = .ok entries)
    (hsizes : ∀ file ∈ files, file.sizeBytes = file.contentSizeBytes)
    (hreadable : ∀ file ∈ files, ReadableTimestamp chrono file.modifiedAtUtc) :
    entries.mapM (manifestEntryToSnapshot chrono snapshotId) =
      .ok (files.map (SnapshotEntry.canonical chrono)) := by
  rw [mapM_eq_ok_iff, List.forall₂_map_right_iff]
  rw [mapM_eq_ok_iff] at hentries
  refine forall₂_imp_mem hentries.flip fun entry _ file hfile hentry => ?_
  rw [manifestEntryToSnapshot_eq_ok hentry]
  refine ⟨_, (format_of_readable hchrono (snapshotEntryToManifest_eq_ok.mp hentry).1
    (hreadable file hfile)).1, ?_⟩
  rw [content_eq (hsizes file hfile)]
  rfl

/-- A stored snapshot that fits the reader and has readable timestamps loads. -/
theorem loads_of_loadable (hchrono : chrono.Lawful) {snapshot : SnapshotFile}
    {prepared : PreparedSnapshot} {repository : SnapshotRepository}
    (h : prepareSnapshot chrono tables blake3 snapshot = .ok prepared)
    (hstored : StoredSnapshot chrono tables blake3 snapshot prepared repository)
    (hloadable : LoadableSnapshot chrono tables snapshot) :
    Loads chrono tables blake3 repository prepared.snapshotId
      (.ok (snapshot.canonical chrono)) := by
  obtain ⟨hvalidate, entries, hentries, manifest, -, created, hcreated, rootBytes, hroot,
    rfl⟩ := prepareSnapshot_eq_ok.mp h
  obtain ⟨entries', range, hentries', hmanifest⟩ := hstored.manifest
  cases hentries.symm.trans hentries'
  obtain ⟨bound, hbound⟩ := hmanifest.yields
  obtain ⟨hschema, -, -, hroots, horder, paths, hfold, -⟩ :=
    validateSnapshotFile_eq_ok.mp hvalidate
  have hfiles := validateSnapshotEntries_files hfold
  have hconverted := mapM_manifestEntryToSnapshot hchrono (rootId blake3 rootBytes) hentries
    (fun file hfile => (hfiles file hfile).2) hloadable.modified
  obtain ⟨loaded, hloaded, hperm⟩ := mapM_perm hmanifest.perm hconverted
  have hpaths : (snapshot.files.map (SnapshotEntry.canonical chrono)).map
      SnapshotEntry.path = snapshot.files.map SnapshotEntry.path := by
    rw [List.map_map]
    rfl
  have hsorted : sortByPath loaded = snapshot.files.map (SnapshotEntry.canonical chrono) :=
    sortByPath_eq hperm (hpaths ▸ validateFileOrder_eq_ok.mp horder)
  obtain ⟨hformat, hback⟩ := format_of_readable hchrono hcreated hloadable.created
  refine ⟨bound, fun turns items hturns hitems => loadSnapshot_eq_ok.mpr ⟨rootBytes,
    hstored.root, _, (decodeSnapshotRootHeader_encoded hroot).mpr ⟨_, hformat, rfl⟩,
    hmanifest.accepted_iff.mpr ?_, loaded, ?_, ?_, ?_⟩⟩
  · exact hmanifest.range_eq hentries ▸ hloadable.fits
  · rw [collectSnapshot_of_collect (hbound turns items hturns hitems), hloaded]
  · rw [hsorted, SnapshotFile.canonical, hschema, hroots]
  · refine validateSnapshotFile_transfer hvalidate rfl rfl rfl hpaths
      ⟨created, parseTimestamp_again hback⟩ fun file hfile => ?_
    obtain ⟨original, horiginal, rfl⟩ := List.mem_map.mp hfile
    obtain ⟨⟨timestamp, htimestamp⟩, hsize⟩ := hfiles original horiginal
    exact ⟨⟨timestamp, parseTimestamp_again (format_of_readable hchrono htimestamp
      (hloadable.modified original horiginal)).2⟩, hsize⟩

end Snapshot

/-! A snapshot of two files. -/

namespace Sample

def epoch : String := "1970-01-01T00:00:00.000000000Z"

/-- A text for each instant: the epoch's own, and for the others a run of letters
that counts the instant. -/
def instantText (seconds : Int64) (nanos : UInt32) : String :=
  if seconds = 0 ∧ nanos = 0 then epoch
  else String.ofList (List.replicate (Nat.pair seconds.toUInt64.toNat nanos.toNat) 'x')

instance (seconds : Int64) : Decidable (FourDigitYear seconds) :=
  inferInstanceAs (Decidable (_ ∧ _))

def chrono : Chrono where
  parseFromRfc3339 := fun text =>
    if text = epoch then some (0, 0)
    else
      let pair := Nat.unpair text.toList.length
      some ((UInt64.ofNat pair.1).toInt64, UInt32.ofNat pair.2)
  canonicalUtc := fun seconds nanos =>
    if FourDigitYear seconds then some (instantText seconds nanos) else none

theorem chrono_lawful : chrono.Lawful where
  parse_canonical := by
    intro seconds nanos hyear _
    refine ⟨instantText seconds nanos, if_pos hyear, ?_⟩
    by_cases hepoch : seconds = 0 ∧ nanos = 0
    · obtain ⟨rfl, rfl⟩ := hepoch
      rfl
    · have hother : String.ofList (List.replicate
          (Nat.pair seconds.toUInt64.toNat nanos.toNat) 'x') ≠ epoch := by
        intro heq
        have hlist := congrArg String.toList heq
        rw [String.toList_ofList] at hlist
        have hmem : '1' ∈ List.replicate (Nat.pair seconds.toUInt64.toNat nanos.toNat) 'x' := by
          rw [hlist]
          decide
        exact absurd (List.mem_replicate.mp hmem).2 (by decide)
      simp only [chrono, instantText, if_neg hepoch, if_neg hother, String.toList_ofList,
        List.length_replicate, Nat.unpair_pair]
      simp
  canonical_outside := by
    intro seconds nanos text hyear hformat
    simp [chrono, hyear] at hformat

theorem parse_epoch (snapshotId : SnapshotId) (field : String) :
    parseTimestamp chrono snapshotId field epoch = .ok ⟨0, 0⟩ :=
  parseTimestamp_eq_ok.mpr ⟨rfl, by decide⟩

def file (path : TrackedUnityFilePath) : SnapshotEntry :=
  ⟨path, 3, epoch, .whole (entry path.text).objectId 3⟩

theorem snapshotEntryToManifest_file (path : TrackedUnityFilePath) :
    snapshotEntryToManifest chrono (file path) = .ok (entry path.text) :=
  snapshotEntryToManifest_eq_ok.mpr ⟨parse_epoch _ _, rfl, rfl, rfl⟩

def snapshot (files : List SnapshotEntry) : SnapshotFile where
  schemaVersion := snapshotSchemaVersionV2
  projectId := ⟨List.replicate 16 5, List.length_replicate⟩
  parentSnapshotId := none
  createdAtUtc := epoch
  name := "first"
  toolVersion := "1.0"
  trackedRoots := ["Assets", "Packages", "ProjectSettings"]
  files := files

/-- Files in order, without collisions, whose manifest the writer stores. -/
theorem validate_snapshot {tables : UnicodeTables} (paths : List TrackedUnityFilePath)
    (portable : PortablePaths)
    (horder : paths.Pairwise fun left right => utf8 left.text < utf8 right.text)
    (hportable : (paths.map file).foldlM
      (validateSnapshotEntry chrono tables validationId) [] = .ok portable)
    (hancestors : ∀ entry ∈ portable, portable.ancestor entry.1 = none) :
    validateSnapshotFile chrono tables validationId (snapshot (paths.map file)) = .ok () := by
  refine validateSnapshotFile_eq_ok.mpr ⟨rfl, ⟨_, parse_epoch _ _⟩,
    show ¬ (trim "first" = "" ∨ trim "first" ≠ "first") by decide +kernel, rfl,
    validateFileOrder_eq_ok.mpr ?_, portable, hportable, validateAncestors_eq_ok.mpr hancestors⟩
  rw [snapshot, List.map_map]
  simpa [Function.comp_def, file] using horder

theorem prepare_snapshot {tables : UnicodeTables} {blake3 : Bytes → Digest32}
    (paths : List TrackedUnityFilePath) (portable : PortablePaths) {built : BuiltManifest}
    (horder : paths.Pairwise fun left right => utf8 left.text < utf8 right.text)
    (hportable : (paths.map file).foldlM
      (validateSnapshotEntry chrono tables validationId) [] = .ok portable)
    (hancestors : ∀ entry ∈ portable, portable.ancestor entry.1 = none)
    (hbuilt : buildManifest blake3 tables (paths.map fun path => entry path.text) = .ok built)
    (hroot : ∀ root, built.root = some root → root.kind ≠ .root)
    (hempty : built.root = none → built.summary = .zero) :
    ∃ prepared, prepareSnapshot chrono tables blake3 (snapshot (paths.map file)) =
      .ok prepared := by
  have hvalid := validate_snapshot paths portable horder hportable hancestors
  have hentries : (paths.map file).mapM (snapshotEntryToManifest chrono) =
      .ok (paths.map fun path => entry path.text) := by
    rw [mapM_eq_ok_iff, List.forall₂_map_left_iff, List.forall₂_map_right_iff,
      List.forall₂_same]
    exact fun path _ => snapshotEntryToManifest_file path
  obtain ⟨rootBytes, hrootBytes⟩ := @encodeRoot_ok ⟨⟨List.replicate 16 5,
    List.length_replicate⟩, none, ⟨0, 0⟩, "first", "1.0", built.root, built.summary⟩
    (validateRoot_eq_ok.mpr ⟨show (utf8 "first").length ≤ 4096 by decide +kernel,
      show ¬ (trim "first" = "" ∨ trim "first" ≠ "first") by decide +kernel,
      show (utf8 "1.0").length ≤ 256 by decide +kernel, show (0 : UInt32) < 1000000000 by decide,
      fun h => h.2 (hempty h.1)⟩) hroot
  exact ⟨_, prepareSnapshot_eq_ok.mpr ⟨hvalid, _, hentries, built, hbuilt, ⟨0, 0⟩,
    parse_epoch _ _, rootBytes, hrootBytes, rfl⟩⟩

def pathA : TrackedUnityFilePath := ⟨"Assets/a", by decide +kernel⟩
def pathB : TrackedUnityFilePath := ⟨"Assets/b", by decide +kernel⟩

end Sample

section Snapshot

variable {chrono : Chrono} {tables : UnicodeTables} {blake3 : Bytes → Digest32}

/-- A prepared snapshot can be stored in any repository, and then it loads as the
same snapshot in canonical form exactly when its manifest fits the reader's cache
and its timestamps have four-digit years. -/
theorem storedSnapshot_loads_iff (hchrono : chrono.Lawful) {snapshot : SnapshotFile}
    {prepared : PreparedSnapshot}
    (h : prepareSnapshot chrono tables blake3 snapshot = .ok prepared)
    (before : SnapshotRepository) :
    ∃ after, before.storePreparedSnapshot blake3 prepared = .ok after ∧
      (Loads chrono tables blake3 after prepared.snapshotId
          (.ok (snapshot.canonical chrono)) ↔
        LoadableSnapshot chrono tables snapshot) := by
  obtain ⟨after, hstore, hstored⟩ := storePreparedSnapshot_ok h before
  exact ⟨after, hstore, loadable_of_loads hchrono h hstored,
    loads_of_loadable hchrono h hstored⟩

end Snapshot

theorem storedSnapshot_loads_iff_sample :
    ∃ prepared after, prepareSnapshot Sample.chrono Sample.tables Sample.hash
        (Sample.snapshot ([Sample.pathA, Sample.pathB].map Sample.file)) = .ok prepared ∧
      SnapshotRepository.storePreparedSnapshot Sample.hash
        ⟨"repo", fun _ => none, fun _ => none, fun _ => none⟩ prepared = .ok after ∧
      (Loads Sample.chrono Sample.tables Sample.hash after prepared.snapshotId
          (.ok ((Sample.snapshot ([Sample.pathA, Sample.pathB].map
            Sample.file)).canonical Sample.chrono)) ↔
        LoadableSnapshot Sample.chrono Sample.tables
          (Sample.snapshot ([Sample.pathA, Sample.pathB].map Sample.file))) := by
  obtain ⟨built, hbuilt, hmanifest⟩ := buildManifest_of_canonical
    (List.Perm.refl (Sample.range.map KeyedEntry.entry)) Sample.range_valid Sample.range_fit
    Sample.range_canonical Sample.source_holds
  obtain ⟨prepared, hprepared⟩ := Sample.prepare_snapshot [Sample.pathA, Sample.pathB]
    [(utf8 "assets/b", Sample.pathB), (utf8 "assets/a", Sample.pathA)] (by decide +kernel)
    (by decide +kernel) (by decide +kernel) hbuilt
    (by rw [hmanifest.root_eq]; rintro root ⟨rfl⟩; decide +kernel)
    (by rw [hmanifest.root_eq]; simp)
  obtain ⟨after, hafter, hloads⟩ := storedSnapshot_loads_iff Sample.chrono_lawful hprepared
    ⟨"repo", fun _ => none, fun _ => none, fun _ => none⟩
  exact ⟨prepared, after, hprepared, hafter, hloads⟩

end CheckPo
