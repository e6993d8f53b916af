/-
Whether a snapshot that the verification accepts also loads: the loader asks besides that
its dates have four-digit years and that no conflict of its paths is shadowed.
-/
import CheckPo.GrowingInventory
import CheckPo.MerkleCodecCanonical
import CheckPo.VerificationSound

namespace CheckPo

open Relation Verification

section Hash

variable {chrono : Chrono} {tables : UnicodeTables} {blake3 : Bytes → Digest32}

/-! The entries of a manifest stand in its leaves. -/

/-- A leaf that is reachable and holds the entry. -/
def InLeaf (graph : ManifestGraph) (reference : ManifestRef) (entry : LeafEntry) : Prop :=
  ∃ leaf content bytes, ReflTransGen (IsChild graph.children) reference leaf ∧
    graph.load leaf = .ok (.leaf content bytes) ∧ encodeLeaf content = .ok bytes ∧
    entry ∈ content.entries

theorem InLeaf.entries {graph : ManifestGraph} {reference : ManifestRef} {entry : LeafEntry}
    (h : InLeaf graph reference entry) :
    ∃ leaf, graph.Reachable [reference] leaf ∧ entry ∈ graph.entries leaf := by
  rcases h with ⟨leaf, content, bytes, hpath, hload, -, hmem⟩
  refine ⟨leaf, ⟨reference, List.mem_singleton_self _, hpath⟩, ?_⟩
  rw [ManifestGraph.entries_eq hload]
  exact hmem

/-- Every entry of an encoded leaf has nanoseconds of one second. -/
theorem nanoseconds_lt {content : ManifestLeaf} {bytes : Bytes}
    (hencode : encodeLeaf content = .ok bytes) {entry : LeafEntry}
    (hentry : entry ∈ content.entries) : entry.modified.nanoseconds < 1000000000 := by
  obtain ⟨-, -, _, -, _, -, _, -, written, hwritten, -⟩ := encodeLeaf_eq_ok.mp hencode
  rcases forall₂_mem_left (mapM_eq_ok_iff.mp hwritten) hentry with ⟨field, -, hfield⟩
  exact (encodeLeafEntry_eq_ok.mp hfield).2.1

theorem Canonical.inLeaf {target levels : Nat} {source : ManifestChunkSource}
    {range : List KeyedEntry} {reference : ManifestRef} {added : Chunks}
    (h : Canonical blake3 target levels range reference added)
    (hholds : Holds (sourceTable source) added) {keyed : KeyedEntry} (hkeyed : keyed ∈ range) :
    InLeaf (storedGraph blake3 source) reference keyed.entry := by
  induction levels generalizing range reference added with
  | zero => exact h.elim
  | succ levels ih =>
      by_cases hleaf : RangeIsLeaf target range
      · obtain ⟨-, -, bytes, hbytes, rfl, rfl⟩ := (canonical_leaf hleaf).mp h
        have hsource := sourceTable_eq_some.mp (hholds _ (List.mem_singleton_self _))
        exact ⟨_, _, bytes, .refl, loadChunk_leaf hsource hbytes, hbytes,
          List.mem_map_of_mem hkeyed⟩
      · obtain ⟨-, -, -, built, hbuilt, bytes, hbytes, rfl, rfl⟩ :=
          (canonical_node hleaf).mp h
        have hsource := sourceTable_eq_some.mp
          (hholds (nodeRef blake3 bytes, bytes) (by simp))
        have hload := loadChunk_node hsource hbytes
        rw [← rangeChildren_flatten range, List.mem_flatten] at hkeyed
        rcases hkeyed with ⟨part, hpart, hkeyed⟩
        rcases forall₂_mem_left hbuilt hpart with ⟨child, hchild, hcanonical⟩
        have hbelow : Holds (sourceTable source) child.2 := fun item hitem =>
          hholds item (List.mem_append_left _
            (List.mem_flatten.mpr ⟨child.2, List.mem_map_of_mem hchild, hitem⟩))
        rcases ih hcanonical hbelow hkeyed with ⟨leaf, content, leafBytes, hpath, hrest⟩
        refine ⟨leaf, content, leafBytes, ReflTransGen.head ?_ hpath, hrest⟩
        have hgraph : (storedGraph blake3 source).load (nodeRef blake3 bytes) = _ := hload
        rw [IsChild, ManifestGraph.children_eq hgraph, DecodedChunk.childRefs,
          rangeManifestChildren_refs (by rw [List.length_map, hbuilt.length_eq])]
        exact List.mem_map_of_mem hchild

/-! What the loader makes of an accepted manifest. -/

theorem manifestEntryToSnapshot_iff {snapshotId : SnapshotId} {entry : ManifestEntry}
    {file : SnapshotEntry} :
    manifestEntryToSnapshot chrono snapshotId entry = .ok file ↔
      ∃ path text, TrackedUnityFilePath.parse entry.exactPath = .ok path ∧
        chrono.canonicalUtc entry.modified.unixSeconds entry.modified.nanoseconds = some text ∧
        file = ⟨path, entry.sizeBytes, text, .whole entry.objectId entry.sizeBytes⟩ := by
  simp only [manifestEntryToSnapshot, except_bind_eq_ok, formatTimestamp_eq_ok,
    except_pure_eq_ok]
  constructor
  · rintro ⟨path, hpath, text, htext, rfl⟩
    exact ⟨path, text, hpath, htext, rfl⟩
  · rintro ⟨path, text, hpath, htext, rfl⟩
    exact ⟨path, hpath, text, htext, rfl⟩

/-- An instant in canonical form can be parsed exactly when its year has four digits. -/
theorem parse_canonical_iff (hchrono : chrono.Lawful) {timestamp : Timestamp}
    (hnanos : timestamp.nanoseconds < 1000000000) {text : String}
    (htext : chrono.canonicalUtc timestamp.unixSeconds timestamp.nanoseconds = some text)
    (snapshotId : SnapshotId) (field : String) :
    (∃ parsed, parseTimestamp chrono snapshotId field text = .ok parsed) ↔
      FourDigitYear timestamp.unixSeconds := by
  constructor
  · rintro ⟨parsed, hparsed⟩
    by_contra houtside
    have hnone := hchrono.canonical_outside _ _ _ houtside htext
    rw [(parseTimestamp_eq_ok.mp hparsed).1] at hnone
    exact absurd hnone nofun
  · intro hyear
    rcases hchrono.parse_canonical _ _ hyear hnanos with ⟨text', htext', hparse⟩
    rw [htext, Option.some.injEq] at htext'
    exact ⟨timestamp, parseTimestamp_eq_ok.mpr ⟨htext' ▸ hparse, hnanos⟩⟩

/-- The dates of the root and of the entries, and the keys of their paths. -/
structure PlainSnapshot (root : SnapshotRoot) (entries : List ManifestEntry)
    (keys : List Bytes) : Prop where
  created : FourDigitYear root.created.unixSeconds
  modified : ∀ entry ∈ entries, FourDigitYear entry.modified.unixSeconds
  paths : ¬ Shadowed keys

/-- A stored snapshot whose root and manifest the verification accepts. -/
structure AcceptedSnapshot (chrono : Chrono) (tables : UnicodeTables)
    (blake3 : Bytes → Digest32) (repository : SnapshotRepository) (snapshotId : SnapshotId)
    (root : SnapshotRoot) (header : SnapshotRootHeader) (entries : List ManifestEntry)
    (keys : List Bytes) : Prop where
  read : ∃ bytes, repository.readSnapshotBytes snapshotId = .ok bytes ∧
    decodeSnapshotRootHeader chrono blake3 snapshotId bytes = .ok header ∧
    decodeRoot bytes = .ok root
  accepted : validateManifest blake3 tables repository.loadManifestChunk header.manifest
    header.summary = .ok ()
  yields : Yields blake3 repository.loadManifestChunk header.manifest entries
  keys_eq : entries.mapM (fun entry => portablePathKeyV1 tables entry.exactPath) = .ok keys
  tracked : ∀ entry ∈ entries, ∃ path, TrackedUnityFilePath.parse entry.exactPath = .ok path
  nanoseconds : ∀ entry ∈ entries, entry.modified.nanoseconds < 1000000000

variable {repository : SnapshotRepository} {snapshotId : SnapshotId} {root : SnapshotRoot}
  {header : SnapshotRootHeader} {entries : List ManifestEntry} {keys : List Bytes}

theorem decodeSnapshotRootHeader_eq_ok {bytes : Bytes} :
    decodeSnapshotRootHeader chrono blake3 snapshotId bytes = .ok header ↔
      rootId blake3 bytes = snapshotId ∧ ∃ root, decodeRoot bytes = .ok root ∧
      ∃ text, chrono.canonicalUtc root.created.unixSeconds root.created.nanoseconds =
          some text ∧
        (⟨root.projectId, root.parent, text, root.checkpointName, root.toolVersion,
          root.manifest, root.summary⟩ : SnapshotRootHeader) = header := by
  simp only [decodeSnapshotRootHeader, verifyRootId, except_bind_eq_ok, codecError_eq_ok,
    except_guard_eq_ok, formatTimestamp_eq_ok, except_pure_eq_ok, ne_eq, not_not]
  constructor
  · rintro ⟨_, ⟨hid, -⟩, root, hroot, encoded, -, -, text, htext, rfl⟩
    exact ⟨hid, root, hroot, text, htext, rfl⟩
  · rintro ⟨hid, root, hroot, text, htext, rfl⟩
    exact ⟨(), ⟨hid, trivial⟩, root, hroot, bytes, decodeRoot_eq_ok.mp hroot, rfl, text, htext,
      rfl⟩

/-- The check of neighbours accepts the keys. -/
theorem AcceptedSnapshot.ordered
    (h : AcceptedSnapshot chrono tables blake3 repository snapshotId root header entries keys) :
    keys.Nodup ∧ ∀ parent ∈ keys, ∀ child ∈ keys, LiesBelow child parent →
      Separated keys parent := by
  rcases mapM_key_keyed h.keys_eq with ⟨range, hrange, hkeys⟩
  rw [← keysOrdered_sortByKey_iff hkeys]
  exact keysOrdered_of_accepted h.accepted h.yields (List.Perm.refl _) hrange

/-- So a conflict among them is shadowed. -/
theorem AcceptedSnapshot.keyConflict_iff
    (h : AcceptedSnapshot chrono tables blake3 repository snapshotId root header entries keys) :
    KeyConflict keys ↔ Shadowed keys := by
  rcases h.ordered with ⟨hnodup, hseparated⟩
  constructor
  · exact fun hconflict => ⟨hnodup, hconflict.resolve_left (not_not.mpr hnodup), hseparated⟩
  · exact fun hshadowed => Or.inr hshadowed.conflict

theorem nodup_of_mapM {ε α β : Type} {f : α → Except ε β} {values : List α} {results : List β}
    (h : values.mapM f = .ok results) (hnodup : results.Nodup) : values.Nodup := by
  rw [mapM_eq_ok_iff] at h
  induction h with
  | nil => exact List.nodup_nil
  | @cons value result values results hvalue hrest ih =>
      rcases List.nodup_cons.mp hnodup with ⟨hnew, hnodup⟩
      refine List.nodup_cons.mpr ⟨fun hmem => ?_, ih hnodup⟩
      rcases forall₂_mem_left hrest hmem with ⟨other, hother, hsame⟩
      rw [hvalue, Except.ok.injEq] at hsame
      exact hnew (hsame ▸ hother)

/-- Files with different paths are strictly increasing once they are sorted. -/
theorem sortByPath_increasing {files : List SnapshotEntry}
    (hnodup : (files.map SnapshotEntry.path).Nodup) :
    ((sortByPath files).map SnapshotEntry.path).Pairwise fun left right =>
      utf8 left.text < utf8 right.text := by
  have hsorted : (sortByPath files).Pairwise fun left right =>
      utf8 left.path.text ≤ utf8 right.path.text := by
    have h := @List.pairwise_mergeSort SnapshotEntry
      (fun left right => decide (utf8 left.path.text ≤ utf8 right.path.text))
      (fun a b c => by simpa using le_trans) (fun a b => by simpa using le_total _ _) files
    simpa [sortByPath] using h
  have hperm : ((sortByPath files).map SnapshotEntry.path).Perm (files.map SnapshotEntry.path) :=
    (List.mergeSort_perm files _).map _
  have hdistinct : (sortByPath files).Pairwise fun left right => left.path ≠ right.path :=
    List.pairwise_map.mp (hperm.nodup_iff.mpr hnodup)
  rw [List.pairwise_map]
  refine (hsorted.and hdistinct).imp fun h => lt_of_le_of_ne h.1 fun heq => h.2 ?_
  exact TrackedUnityFilePath.text_injective (utf8_injective heq)

/-- The snapshot that the loader builds of converted files. -/
def SnapshotRootHeader.snapshot (header : SnapshotRootHeader) (files : List SnapshotEntry) :
    SnapshotFile :=
  ⟨snapshotSchemaVersionV2, header.projectId, header.parentSnapshotId, header.createdAtUtc,
    header.name, header.toolVersion, ["Assets", "Packages", "ProjectSettings"],
    sortByPath files⟩

/-- The check of the snapshot asks for dates with four-digit years and no conflict. -/
theorem AcceptedSnapshot.validate_iff (hchrono : chrono.Lawful)
    (h : AcceptedSnapshot chrono tables blake3 repository snapshotId root header entries keys)
    {files : List SnapshotEntry}
    (hfiles : entries.mapM (manifestEntryToSnapshot chrono snapshotId) = .ok files) :
    validateSnapshotFile chrono tables snapshotId (header.snapshot files) = .ok () ↔
      PlainSnapshot root entries keys := by
  rcases h.read with ⟨bytes, -, hheader, hroot⟩
  rcases decodeSnapshotRootHeader_eq_ok.mp hheader with ⟨-, root', hroot', text, htext, rfl⟩
  obtain rfl := Except.ok.inj (hroot.symm.trans hroot')
  obtain ⟨hvalid, -⟩ := encodeRoot_eq_ok.mp (decodeRoot_eq_ok.mp hroot)
  obtain ⟨-, hname, -, hnanos, -⟩ := validateRoot_eq_ok.mp hvalid
  have hcreated := parse_canonical_iff hchrono hnanos htext snapshotId "createdAtUtc"
  have hconverted := mapM_eq_ok_iff.mp hfiles
  have hmodified : (∀ file ∈ sortByPath files, (∃ timestamp, parseTimestamp chrono snapshotId
      "modifiedAtUtc" file.modifiedAtUtc = .ok timestamp) ∧
      file.sizeBytes = file.contentSizeBytes) ↔
      ∀ entry ∈ entries, FourDigitYear entry.modified.unixSeconds := by
    constructor
    · intro hall entry hentry
      rcases forall₂_mem_left hconverted hentry with ⟨file, hfile, hconversion⟩
      rcases manifestEntryToSnapshot_iff.mp hconversion with ⟨path, fileText, -, hformat, rfl⟩
      exact (parse_canonical_iff hchrono (h.nanoseconds entry hentry) hformat snapshotId
        "modifiedAtUtc").mp (hall _ (List.mem_mergeSort.mpr hfile)).1
    · intro hall file hfile
      rcases forall₂_mem_right hconverted (List.mem_mergeSort.mp hfile) with
        ⟨entry, hentry, hconversion⟩
      rcases manifestEntryToSnapshot_iff.mp hconversion with ⟨path, fileText, -, hformat, rfl⟩
      exact ⟨(parse_canonical_iff hchrono (h.nanoseconds entry hentry) hformat snapshotId
        "modifiedAtUtc").mpr (hall entry hentry), rfl⟩
  have htexts : files.map (fun file => file.path.text) = entries.map LeafEntry.exactPath := by
    rw [eq_comm, ← List.forall₂_eq_eq_eq, List.forall₂_map_left_iff, List.forall₂_map_right_iff]
    refine hconverted.imp fun entry file hconversion => ?_
    rcases manifestEntryToSnapshot_iff.mp hconversion with ⟨path, fileText, hpath, -, rfl⟩
    exact (TrackedUnityFilePath.parse_eq_ok hpath).symm
  have hkeys : (files.map fun file => file.path.text).mapM (portablePathKeyV1 tables) =
      .ok keys := by
    rw [htexts, List.mapM_map]
    exact h.keys_eq
  have hsorted : ((sortByPath files).map fun file => file.path.text).Perm
      (files.map fun file => file.path.text) :=
    (List.mergeSort_perm files _).map _
  rcases mapM_perm hsorted hkeys with ⟨sortedKeys, hsortedKeys, hperm⟩
  rw [List.mapM_map] at hsortedKeys
  have hnodup : (files.map SnapshotEntry.path).Nodup := by
    have hdistinct : ((files.map SnapshotEntry.path).map TrackedUnityFilePath.text).Nodup := by
      rw [List.map_map]
      exact nodup_of_mapM hkeys h.ordered.1
    exact hdistinct.of_map _
  have hsound : (∀ entry ∈ entries, FourDigitYear entry.modified.unixSeconds) →
      FourDigitYear root.created.unixSeconds →
      SoundBesidesKeys chrono snapshotId (SnapshotRootHeader.snapshot ⟨root.projectId,
        root.parent, text, root.checkpointName, root.toolVersion, root.manifest, root.summary⟩
        files) := fun hall hyear =>
    ⟨rfl, hcreated.mpr hyear, hname, rfl, validateFileOrder_eq_ok.mpr (sortByPath_increasing hnodup),
      hmodified.mpr hall⟩
  constructor
  · intro hok
    obtain ⟨-, hparsed, -, -, -, paths, hfold, -⟩ := validateSnapshotFile_eq_ok.mp hok
    have hall := hmodified.mp (validateSnapshotEntries_files hfold)
    have hyear := hcreated.mp hparsed
    refine ⟨hyear, hall, fun hshadowed => ?_⟩
    have hfree := (validateSnapshotFile_iff (hsound hall hyear) hsortedKeys).mp hok
    rw [keyConflict_perm hperm, h.keyConflict_iff] at hfree
    exact hfree hshadowed
  · rintro ⟨hyear, hall, hfree⟩
    rw [validateSnapshotFile_iff (hsound hall hyear) hsortedKeys, keyConflict_perm hperm,
      h.keyConflict_iff]
    exact hfree

/-- With such dates and paths the snapshot loads. -/
theorem AcceptedSnapshot.loads (hchrono : chrono.Lawful)
    (h : AcceptedSnapshot chrono tables blake3 repository snapshotId root header entries keys)
    (hplain : PlainSnapshot root entries keys) :
    ∃ files, entries.mapM (manifestEntryToSnapshot chrono snapshotId) = .ok files ∧
      Loads chrono tables blake3 repository snapshotId (.ok (header.snapshot files)) := by
  have hconverts : ∃ files, entries.mapM (manifestEntryToSnapshot chrono snapshotId) =
      .ok files := by
    apply mapM_ok_of_forall
    intro entry hentry
    rcases h.tracked entry hentry with ⟨path, hpath⟩
    rcases hchrono.parse_canonical _ _ (hplain.modified entry hentry)
      (h.nanoseconds entry hentry) with ⟨text, htext, -⟩
    exact ⟨_, manifestEntryToSnapshot_iff.mpr ⟨path, text, hpath, htext, rfl⟩⟩
  rcases hconverts with ⟨files, hfiles⟩
  rcases h.read with ⟨bytes, hread, hheader, -⟩
  rcases h.yields with ⟨bound, hbound⟩
  refine ⟨files, hfiles, bound, fun turns items hturns hitems => loadSnapshot_eq_ok.mpr
    ⟨bytes, hread, header, hheader, h.accepted, files, ?_, rfl,
      (h.validate_iff hchrono hfiles).mpr hplain⟩⟩
  rw [collectSnapshot_of_collect (hbound turns items hturns hitems), hfiles]

theorem AcceptedSnapshot.plain_of_loads (hchrono : chrono.Lawful)
    (h : AcceptedSnapshot chrono tables blake3 repository snapshotId root header entries keys)
    {snapshot : SnapshotFile}
    (hloads : Loads chrono tables blake3 repository snapshotId (.ok snapshot)) :
    PlainSnapshot root entries keys := by
  rcases h.read with ⟨bytes, hread, hheader, -⟩
  rcases h.yields with ⟨bound, hbound⟩
  rcases hloads with ⟨bound', hbound'⟩
  obtain ⟨bytes', hread', header', hheader', -, files, hcollect, rfl, hvalidate⟩ :=
    loadSnapshot_eq_ok.mp (hbound' (max bound bound') (max bound bound') (le_max_right _ _)
      (le_max_right _ _))
  obtain rfl := Except.ok.inj (hread.symm.trans hread')
  obtain rfl := Except.ok.inj (hheader.symm.trans hheader')
  rw [collectSnapshot_of_collect (hbound _ _ (le_max_left _ _) (le_max_left _ _)),
    Option.some.injEq] at hcollect
  exact (h.validate_iff hchrono hcollect).mp hvalidate

/-! The snapshots of a valid verification. -/

/-- What a repository stores under the id of a snapshot: the root, the entries that its
manifest yields, and the portable keys of their paths. -/
structure StoredEntries (tables : UnicodeTables) (blake3 : Bytes → Digest32)
    (repository : SnapshotRepository) (snapshotId : SnapshotId) (root : SnapshotRoot)
    (entries : List ManifestEntry) (keys : List Bytes) : Prop where
  read : ∃ bytes, repository.readSnapshotBytes snapshotId = .ok bytes ∧
    decodeRoot bytes = .ok root
  yields : Yields blake3 repository.loadManifestChunk root.manifest entries
  keys_eq : entries.mapM (fun entry => portablePathKeyV1 tables entry.exactPath) = .ok keys

theorem StoredEntries.unique {root' : SnapshotRoot} {entries' : List ManifestEntry}
    {keys' : List Bytes}
    (h : StoredEntries tables blake3 repository snapshotId root entries keys)
    (h' : StoredEntries tables blake3 repository snapshotId root' entries' keys') :
    root = root' ∧ entries = entries' ∧ keys = keys' := by
  rcases h.read with ⟨bytes, hread, hroot⟩
  rcases h'.read with ⟨bytes', hread', hroot'⟩
  obtain rfl := Except.ok.inj (hread.symm.trans hread')
  obtain rfl := Except.ok.inj (hroot.symm.trans hroot')
  obtain rfl := h.yields.unique h'.yields
  exact ⟨rfl, rfl, Except.ok.inj (h.keys_eq.symm.trans h'.keys_eq)⟩

theorem AcceptedSnapshot.stored
    (h : AcceptedSnapshot chrono tables blake3 repository snapshotId root header entries keys) :
    StoredEntries tables blake3 repository snapshotId root entries keys := by
  rcases h.read with ⟨bytes, hread, hheader, hroot⟩
  rcases decodeSnapshotRootHeader_eq_ok.mp hheader with ⟨-, root', hroot', text, -, rfl⟩
  obtain rfl := Except.ok.inj (hroot.symm.trans hroot')
  exact ⟨⟨bytes, hread, hroot⟩, h.yields, h.keys_eq⟩

/-- Loading returns this result for the project, given enough turns and items. -/
def LoadsProject (chrono : Chrono) (tables : UnicodeTables) (blake3 : Bytes → Digest32)
    (repository : SnapshotRepository) (projectId : ProjectId) (snapshotId : SnapshotId)
    (result : CheckPoResult SnapshotFile) : Prop :=
  ∃ bound, ∀ turns items, bound ≤ turns → bound ≤ items →
    loadProjectSnapshot chrono tables blake3 repository projectId snapshotId turns items =
      some result

/-- Verifying the checkpoint finds it valid, given enough turns and items. -/
def VerifiesCheckpoint (chrono : Chrono) (tables : UnicodeTables) (blake3 : Bytes → Digest32)
    (files : RepositoryFiles) (root : String) (projectId : ProjectId)
    (snapshotId : SnapshotId) : Prop :=
  ∃ bound, ∀ turns items, bound ≤ turns → bound ≤ items → ∃ result,
    verifyCheckpoint chrono tables blake3 files root projectId snapshotId true turns items =
      some result ∧ result.isValid = true

/-- The checkpoint loads, its objects are stored, and verifying it finds it valid. -/
def SoundCheckpoint (chrono : Chrono) (tables : UnicodeTables) (blake3 : Bytes → Digest32)
    (files : RepositoryFiles) (root : String) (projectId : ProjectId)
    (snapshotId : SnapshotId) : Prop :=
  ∃ snapshot, LoadsProject chrono tables blake3 (files.snapshotRepository root) projectId
      snapshotId (.ok snapshot) ∧
    (∀ file ∈ snapshot.files, Stored blake3 files file.contentHash file.sizeBytes) ∧
    VerifiesCheckpoint chrono tables blake3 files root projectId snapshotId

theorem Verification.Stored.size_unique {files : RepositoryFiles} {id : ObjectId} {left right : UInt64}
    (hleft : Stored blake3 files id left) (hright : Stored blake3 files id right) :
    left = right := by
  rcases hleft with ⟨content, hcontent, hlength, -⟩
  rcases hright with ⟨content', hcontent', hlength', -⟩
  obtain rfl := Option.some.inj (hcontent.symm.trans hcontent')
  exact UInt64.toNat_inj.mp (hlength.symm.trans hlength')

/-- Verifying stored objects finds no error. -/
theorem verifySnapshotFiles_errors {files : RepositoryFiles} {display : String}
    {entries : List SnapshotEntry} {state : VerifiedObjects} (hstate : state.errors = [])
    (hobjects : ∀ object ∈ state.objects, Stored blake3 files object.1 object.2)
    (hentries : ∀ file ∈ entries, Stored blake3 files file.contentHash file.sizeBytes) :
    (entries.foldl (verifySnapshotFile blake3 files display snapshotId true) state).errors =
      [] := by
  induction entries generalizing state with
  | nil => exact hstate
  | cons file rest ih =>
      rw [List.forall_mem_cons] at hentries
      have hpush : pushFailure (pushFailure state.errors
          (TrackedUnityFilePath.parse file.path.text))
          (parseLowerHexId "object" file.contentHash.toHex) = [] :=
        pushFailure_eq_nil.mpr ⟨pushFailure_eq_nil.mpr ⟨hstate, _, file.path.parse_text⟩, _,
          parseLowerHexId_toHex _ _⟩
      rw [List.foldl_cons]
      apply ih _ _ hentries.2
      · rw [verifySnapshotFile]
        split
        · next expected hexpected =>
            rw [Option.map_eq_some_iff] at hexpected
            rcases hexpected with ⟨⟨id, size⟩, hfind, rfl⟩
            have hid : id = file.contentHash := by simpa using List.find?_some hfind
            have hsize := (hobjects _ (List.mem_of_find?_eq_some hfind)).size_unique
              (hid ▸ hentries.1)
            rw [if_neg (not_not.mpr hsize)]
            exact hpush
        · rw [verifyObject_eq_ok.mpr hentries.1]
          exact hpush
      · rw [verifySnapshotFile]
        split
        · exact hobjects
        · intro object hobject
          rcases List.mem_append.mp hobject with hobject | hobject
          · exact hobjects object hobject
          · rw [List.mem_singleton.mp hobject]
            exact hentries.1

/-- A loaded snapshot of the project whose objects are stored is sound. -/
theorem soundCheckpoint_of_loads {files : RepositoryFiles} {display : String}
    {projectId : ProjectId} {snapshot : SnapshotFile} (hproject : snapshot.projectId = projectId)
    (hloads : Loads chrono tables blake3 (files.snapshotRepository display) snapshotId
      (.ok snapshot))
    (hstored : ∀ file ∈ snapshot.files, Stored blake3 files file.contentHash file.sizeBytes) :
    SoundCheckpoint chrono tables blake3 files display projectId snapshotId := by
  rcases hloads with ⟨bound, hbound⟩
  have hload : ∀ turns items, bound ≤ turns → bound ≤ items →
      loadProjectSnapshot chrono tables blake3 (files.snapshotRepository display) projectId
        snapshotId turns items = some (.ok snapshot) := by
    intro turns items hturns hitems
    rw [loadProjectSnapshot, hbound turns items hturns hitems, Option.map_some, except_bind_ok,
      if_neg (not_not.mpr hproject)]
    rfl
  refine ⟨snapshot, ⟨bound, hload⟩, hstored, bound, fun turns items hturns hitems => ?_⟩
  have herrors : (snapshot.files.foldl (verifySnapshotFile blake3 files display snapshotId true)
      ⟨[], []⟩).errors = [] := verifySnapshotFiles_errors rfl (by simp) hstored
  refine ⟨_, by rw [verifyCheckpoint, hload turns items hturns hitems, Option.map_some], ?_⟩
  simp only [herrors, List.isEmpty_nil]

theorem SoundCheckpoint.loads {files : RepositoryFiles} {display : String}
    {projectId : ProjectId}
    (h : SoundCheckpoint chrono tables blake3 files display projectId snapshotId) :
    ∃ snapshot, Loads chrono tables blake3 (files.snapshotRepository display) snapshotId
      (.ok snapshot) := by
  rcases h with ⟨snapshot, ⟨bound, hbound⟩, -⟩
  refine ⟨snapshot, bound, fun turns items hturns hitems => ?_⟩
  have hload := hbound turns items hturns hitems
  rw [loadProjectSnapshot, Option.map_eq_some_iff] at hload
  rcases hload with ⟨result, hresult, hcheck⟩
  simp only [except_bind_eq_ok, except_guard_eq_ok, except_pure_eq_ok] at hcheck
  rcases hcheck with ⟨loaded, rfl, -, rfl⟩
  exact hresult

/-- What a valid verification has established of a snapshot. -/
structure VerifiedSnapshot (chrono : Chrono) (tables : UnicodeTables)
    (blake3 : Bytes → Digest32) (files : RepositoryFiles) (display : String)
    (projectId : ProjectId) (snapshotId : SnapshotId) (root : SnapshotRoot)
    (header : SnapshotRootHeader) (entries : List ManifestEntry) (keys : List Bytes) : Prop where
  accepted : AcceptedSnapshot chrono tables blake3 (files.snapshotRepository display) snapshotId
    root header entries keys
  project : header.projectId = projectId
  stored : ∀ entry ∈ entries, Stored blake3 files entry.objectId entry.sizeBytes

theorem verifyProject_snapshots {json : ConfigJson} {files : RepositoryFiles}
    {display : String} {projectId : ProjectId} {turns : Nat} {result : VerificationResult}
    {ids : Finset SnapshotId}
    (hresult : verifyProject chrono tables blake3 json files display projectId true turns =
      some (.ok result)) (hvalid : result.isValid = true)
    (hids : files.listSnapshotIds display = .ok ids) :
    ∀ snapshotId ∈ ids, ∃ root header entries keys, VerifiedSnapshot chrono tables blake3 files
      display projectId snapshotId root header entries keys := by
  simp only [verifyProject, hids, Option.map_eq_some_iff] at hresult
  rcases hresult with ⟨walk, hwalk, hresult⟩
  rw [Except.ok.injEq] at hresult
  subst hresult
  rw [List.isEmpty_iff] at hvalid
  rcases verifyReferencedObjects_eq_nil.mp (errors_of_verifyLatest hvalid) with
    ⟨herrors, hobjects⟩
  have hstart : Walked chrono tables blake3 (files.snapshotRepository display) projectId []
      ⟨∅, ⟨[], pushFailure (pushFailure [] (files.loadRepoConfig json display projectId))
        (files.validatePhysicalSnapshotInventory blake3 display projectId)⟩⟩ :=
    ⟨⟨by simp, by simp⟩, by simp⟩
  rcases (collectReferences_walked [] cacheInv_empty (fun _ => hstart) hwalk herrors).2 with
    ⟨hpassed, hreadable⟩
  intro snapshotId hid
  rcases hreadable snapshotId (by simpa using hid) with ⟨header, hheader, hmanifest⟩
  have hread := hheader.header_eq
  rw [SnapshotRepository.loadSnapshotRootHeader, except_bind_eq_ok] at hread
  rcases hread with ⟨bytes, hbytes, hdecode⟩
  rcases decodeSnapshotRootHeader_eq_ok.mp hdecode with ⟨-, root, hroot, -⟩
  -- every entry stands in a leaf that the walk has passed
  obtain ⟨entries, keys, hyields, hkeys, hleaves⟩ : ∃ entries keys,
      Yields blake3 (files.snapshotRepository display).loadManifestChunk header.manifest entries ∧
      entries.mapM (fun entry => portablePathKeyV1 tables entry.exactPath) = .ok keys ∧
      ∀ entry ∈ entries, ∃ reference ∈ header.manifest, InLeaf (storedGraph blake3
        (files.snapshotRepository display).loadManifestChunk) reference entry := by
    rcases validateManifest_eq_ok hheader.accepted with ⟨hnone, -⟩ |
      ⟨reference, range, added, hsome, -, hverified⟩
    · rw [hnone]
      exact ⟨[], [], yields_none, rfl, by simp⟩
    · rw [hsome]
      refine ⟨range.map KeyedEntry.entry, range.map KeyedEntry.key,
        hverified.canonical.yields hverified.holds hverified.valid, hverified.valid.mapM_key, ?_⟩
      intro entry hentry
      rcases List.mem_map.mp hentry with ⟨keyed, hkeyed, rfl⟩
      exact ⟨reference, rfl, hverified.canonical.inLeaf hverified.holds hkeyed⟩
  have hnoted : ∀ entry ∈ entries, Noted walk.marks entry := by
    intro entry hentry
    rcases hleaves entry hentry with ⟨reference, hreference, hleaf⟩
    rcases hleaf.entries with ⟨leaf, hreachable, hmem⟩
    refine hpassed.reachable (fun other hother => ?_) hreachable entry hmem
    rw [List.mem_singleton.mp hother]
    exact hmanifest reference hreference
  refine ⟨root, header, entries, keys, ⟨⟨bytes, hbytes, hdecode, hroot⟩, hheader.accepted,
    hyields, hkeys, fun entry hentry => (hnoted entry hentry herrors).1, ?_⟩, hheader.project, ?_⟩
  · intro entry hentry
    rcases hleaves entry hentry with ⟨-, -, leaf, content, leafBytes, -, -, hencode, hmem⟩
    exact nanoseconds_lt hencode hmem
  · intro entry hentry
    rcases (hnoted entry hentry herrors).2 with ⟨reference, hreference, hsize⟩
    have hobject := verifyObject_eq_ok.mp (hobjects _ (Marks.object_mem hreference))
    rwa [hsize] at hobject

/-- After a valid verification, every checkpoint is sound exactly when the dates of every
stored snapshot have four-digit years and its paths have no shadowed conflict. -/
theorem verification_sound_iff (chrono : Chrono) (hchrono : chrono.Lawful)
    (tables : UnicodeTables) (blake3 : Bytes → Digest32) (json : ConfigJson)
    (files : RepositoryFiles) (display : String) (projectId : ProjectId) (turns : Nat)
    (result : VerificationResult)
    (hresult : verifyProject chrono tables blake3 json files display projectId true turns =
      some (.ok result)) (hvalid : result.isValid = true) (ids : Finset SnapshotId)
    (hids : files.listSnapshotIds display = .ok ids) :
    (∀ snapshotId ∈ ids, SoundCheckpoint chrono tables blake3 files display projectId
        snapshotId) ↔
      ∀ snapshotId ∈ ids, ∀ root entries keys, StoredEntries tables blake3
        (files.snapshotRepository display) snapshotId root entries keys →
        PlainSnapshot root entries keys := by
  have hverified := verifyProject_snapshots hresult hvalid hids
  refine forall₂_congr fun snapshotId hid => ?_
  rcases hverified snapshotId hid with ⟨root, header, entries, keys, haccepted, hproject, hstored⟩
  constructor
  · intro hsound root' entries' keys' hentries
    rcases hsound.loads with ⟨snapshot, hloads⟩
    rcases haccepted.stored.unique hentries with ⟨rfl, rfl, rfl⟩
    exact haccepted.plain_of_loads hchrono hloads
  · intro hplain
    rcases haccepted.loads hchrono (hplain root entries keys haccepted.stored) with
      ⟨converted, hconverted, hloads⟩
    refine soundCheckpoint_of_loads hproject hloads fun file hfile => ?_
    rcases forall₂_mem_right (mapM_eq_ok_iff.mp hconverted) (List.mem_mergeSort.mp hfile) with
      ⟨entry, hentry, hconversion⟩
    rcases manifestEntryToSnapshot_iff.mp hconversion with ⟨path, text, -, -, rfl⟩
    exact hstored entry hentry

end Hash

/-! A repository with one checkpoint of two files, created in the year 10000, that the
verification accepts and the loader rejects. -/

namespace Sample

def farText : String := "+10000-01-01T00:00:00.000000000Z"

/-- Instants beyond four-digit years have a text too, which is no RFC 3339 date. -/
def farChrono : Chrono where
  parseFromRfc3339 text := if text = farText then none else chrono.parseFromRfc3339 text
  canonicalUtc seconds nanos :=
    if FourDigitYear seconds then some (instantText seconds nanos) else some farText

theorem instantText_ne_farText (seconds : Int64) (nanos : UInt32) :
    instantText seconds nanos ≠ farText := by
  intro h
  rw [instantText] at h
  split at h
  · exact absurd h (by decide)
  · have hlist := congrArg String.toList h
    rw [String.toList_ofList] at hlist
    have hmem : '+' ∈ List.replicate (Nat.pair seconds.toUInt64.toNat nanos.toNat) 'x' := by
      rw [hlist]
      decide
    exact absurd (List.mem_replicate.mp hmem).2 (by decide)

theorem farChrono_lawful : farChrono.Lawful where
  parse_canonical seconds nanos hyear hnanos := by
    refine ⟨instantText seconds nanos, if_pos hyear, ?_⟩
    rcases chrono_lawful.parse_canonical seconds nanos hyear hnanos with ⟨text, htext, hparse⟩
    have hsame : some (instantText seconds nanos) = some text := (if_pos hyear).symm.trans htext
    rw [← Option.some.inj hsame] at hparse
    exact (if_neg (instantText_ne_farText seconds nanos)).trans hparse
  canonical_outside seconds nanos text hyear htext := by
    have hsame : some farText = some text := (if_neg hyear).symm.trans htext
    exact if_pos (Option.some.inj hsame).symm

def farRoot : SnapshotRoot :=
  ⟨firstProject, none, ⟨253402300800, 0⟩, "first", "1.0", some root, ⟨2, 6, 16⟩⟩

/-- The content of both files. -/
def farContent : Bytes := [1, 2, 4]

@[irreducible] def farRootBytes : Bytes := (encodeRoot farRoot).toOption.getD []

@[irreducible] def farId : SnapshotId := rootId hash farRootBytes

/-! Its inventory. -/

def farLeaf : SetLeaf := ⟨firstProject, farId.firstByte, [farId]⟩

@[irreducible] def farLeafBytes : Bytes := okBytes (encodeSetLeaf farLeaf)

def farSetRoot : SetRoot :=
  ⟨firstProject, 1, (List.replicate 256 none).set farId.firstByte.toNat
    (some ⟨setLeafId hash farLeafBytes, 1⟩)⟩

@[irreducible] def farSetRootBytes : Bytes := okBytes (encodeSetRoot farSetRoot)

def farState : InventoryState where
  projectId := firstProject
  generation := 1
  count := 1
  operation := .add
  parent := some (stateId hash [])
  snapshotId := some farId
  operationId := inventoryOperationId hash "create"
  setRoot := setRootId hash farSetRootBytes

def farHead : InventoryHead := ⟨stateId hash (encodeState farState), farState⟩

def repoJson : Bytes := utf8
  "\x7b\"schemaVersion\":2,\"repoFormatVersion\":5,\"projectId\":\"00000000000000000000000000000000\",\"hashAlgorithm\":\"blake3\",\"snapshotFormat\":\"merkle-radix-bin-v2\",\"objectFormat\":\"loose-whole-file-one-level-v2\",\"manifestChunkFormat\":\"merkle-radix-bin-v2\",\"manifestStorageFormat\":\"loose-content-addressed-one-level-v2\",\"pathKeyPolicy\":\"unicode-16.0-nfc-lowercase-v1\"\x7d"

/-- A reader of this one configuration. -/
def configJson : ConfigJson where
  envelope bytes := if bytes = repoJson then some (2, some 5) else none
  config bytes := if bytes = repoJson then some (defaultRepositoryConfig firstProject) else none

def farFiles : RepositoryFiles := .ofList [
  ([], .directory),
  (["repo.json"], .file repoJson),
  (inventoryHeadPath, .file (headBytes farHead.id)),
  (inventoryStatePath farHead.id, .file (encodeState farState)),
  (inventorySetRootPath farState.setRoot, .file farSetRootBytes),
  (inventorySetLeafPath (setLeafId hash farLeafBytes), .file farLeafBytes),
  (snapshotsDir, .directory),
  (snapshotsDir ++ [hexByte farId.firstByte], .directory),
  (snapshotsDir ++ [hexByte farId.firstByte, hexByte (byteAt farId.bytes 1)], .directory),
  (snapshotPath farId, .file farRootBytes),
  (manifestLeafPath root.id, .file leafBytes),
  (objectPath (hash farContent), .file farContent)]

/-- The manifest of the checkpoint and the object of its files. -/
theorem farFiles_content :
    farFiles.file (manifestLeafPath root.id) = some leafBytes ∧
      farFiles.entry (objectPath (hash farContent)) = some (.file farContent) := by
  simp [farFiles, FileTree.ofList, FileTree.file, List.lookup_cons, inventoryHeadPath,
    snapshotsDir, snapshotPath, inventoryStatePath, inventorySetRootPath, inventorySetLeafPath,
    manifestLeafPath, objectPath, ContentStore.filePath, ContentStore.shardPath,
    ContentStore.directory]

/-- The files of the checkpoints. -/
theorem farFiles_snapshots :
    farFiles.file ["refs", "latest"] = none ∧
      farFiles.file (snapshotPath farId) = some farRootBytes ∧
      farFiles.entry snapshotsDir = some .directory ∧
      farFiles.entry (snapshotsDir ++ [hexByte farId.firstByte]) = some .directory ∧
      farFiles.entry (snapshotsDir ++ [hexByte farId.firstByte,
        hexByte (byteAt farId.bytes 1)]) = some .directory := by
  simp [farFiles, FileTree.ofList, FileTree.file, List.lookup_cons, inventoryHeadPath,
    snapshotsDir, snapshotPath, inventoryStatePath, inventorySetRootPath, inventorySetLeafPath,
    manifestLeafPath, objectPath, ContentStore.filePath, ContentStore.shardPath,
    ContentStore.directory]

theorem farFiles_config : farFiles.loadRepoConfig configJson "repo" firstProject =
    .ok (defaultRepositoryConfig firstProject) := by
  decide +kernel

theorem farFiles_inventory :
    farFiles.file inventoryHeadPath = some (headBytes farHead.id) ∧
      farFiles.file (inventoryStatePath farHead.id) = some (encodeState farState) ∧
      farFiles.file (inventorySetRootPath farState.setRoot) = some farSetRootBytes ∧
      farFiles.file (inventorySetLeafPath (setLeafId hash farLeafBytes)) = some farLeafBytes := by
  simp [farFiles, FileTree.ofList, FileTree.file, List.lookup_cons, inventoryHeadPath,
    inventoryStatePath, inventorySetRootPath, inventorySetLeafPath, ContentStore.filePath,
    ContentStore.shardPath, ContentStore.directory]

theorem farFiles_head :
    (farFiles.inventoryStore "repo").inventoryHead hash firstProject = .ok farHead := by
  rcases farFiles_inventory with ⟨hhead, hstate, -, -⟩
  have hshape : farState.validShape = true := by
    decide +kernel
  exact inventoryHead_eq_ok.mpr ⟨headBytes farHead.id, hhead,
    (length_headBytes farHead.id).le, farHead.id, parseHead_headBytes _ farHead.id, loadState_eq_ok.mpr ⟨rfl, hstate, rfl, hshape, rfl⟩⟩

theorem farSetRoot_encoded : encodeSetRoot farSetRoot = .ok farSetRootBytes := by
  have hlength : farSetRoot.leaves.length = 256 := by
    rw [farSetRoot, List.length_set, List.length_replicate]
  rw [farSetRootBytes, encodeSetRoot_eq_ok.mpr ⟨hlength, rfl⟩, okBytes]

theorem farLeaf_encoded : encodeSetLeaf farLeaf = .ok farLeafBytes := by
  have hvalid : farLeaf.IdsValid := by
    refine ⟨List.cons_ne_nil _ _, List.pairwise_singleton _ _, fun id hid => ?_⟩
    rw [List.mem_singleton.mp hid]
    rfl
  rw [farLeafBytes, encodeSetLeaf_eq_ok.mpr ⟨hvalid, show 1 < 2 ^ 32 by decide, rfl⟩, okBytes]

theorem farSetRoot_slot (idPrefix : UInt8) : farSetRoot.slot idPrefix =
    if idPrefix = farId.firstByte then some ⟨setLeafId hash farLeafBytes, 1⟩ else none := by
  have hbyte := UInt8.toNat_lt farId.firstByte
  rw [SetRoot.slot, farSetRoot, List.getD_eq_getElem?_getD, List.getElem?_set]
  simp only [List.length_replicate, ← UInt8.toNat_inj, eq_comm]
  split
  · rfl
  · rw [List.getElem?_replicate]
    split <;> rfl

theorem farFiles_ids :
    (farFiles.inventoryStore "repo").loadInventoryIds hash firstProject farState =
      .ok {farId} := by
  rcases farFiles_inventory with ⟨-, -, hroot, hleaf⟩
  have hnonzero : setLeafId hash farLeafBytes ≠ zeroDigest := by
    decide +kernel
  have hvalid : farSetRoot.SlotsValid := by
    intro reference hreference
    rw [farSetRoot] at hreference
    rcases List.mem_or_eq_of_mem_set hreference with hnone | hsome
    · exact absurd (List.mem_replicate.mp hnone).2 nofun
    · rw [Option.some.inj hsome]
      exact ⟨hnonzero, show (0 : UInt32) < 1 by decide⟩
  have hload : (farFiles.inventoryStore "repo").loadSetRoot hash farState.setRoot firstProject =
      .ok farSetRoot :=
    loadSetRoot_eq_ok.mpr ⟨farSetRootBytes, farSetRoot_encoded, hroot, rfl, hvalid, rfl⟩
  rw [loadInventoryIds_eq_ok]
  refine ⟨farSetRoot, loadStateRoot_eq_ok.mpr ⟨hload, rfl⟩, (Finset.card_singleton _).symm,
    fun idPrefix => ?_⟩
  rw [farSetRoot_slot]
  by_cases hsame : idPrefix = farId.firstByte
  · subst hsame
    have hids : shard Digest32.firstByte {farId} farId.firstByte = [farId] :=
      (eq_shard (List.pairwise_singleton _ _) (by simp)).symm
    rw [if_pos rfl, hids]
    exact loadSlotLeaf_eq_ok.mpr ⟨loadSetLeaf_eq_ok.mpr ⟨farLeafBytes, farLeaf_encoded, hleaf,
      by decide +kernel, rfl, rfl, rfl⟩, rfl⟩
  · rw [if_neg hsame]
    exact shard_eq_nil_iff.mpr (by simp [Ne.symm hsame])

/-- What the entries below `snapshots/v2` list. -/
def farListed (path : Path) : Finset SnapshotId := if path = snapshotPath farId then {farId} else ∅

theorem farFiles_below : farFiles.below snapshotsDir =
    {snapshotsDir ++ [hexByte farId.firstByte],
      snapshotsDir ++ [hexByte farId.firstByte, hexByte (byteAt farId.bytes 1)],
      snapshotPath farId} := by
  simp [FileTree.below, farFiles, FileTree.ofList, Finset.filter_insert, Finset.filter_singleton,
    inventoryHeadPath, snapshotsDir, snapshotPath, inventoryStatePath, inventorySetRootPath,
    inventorySetLeafPath, manifestLeafPath, objectPath, ContentStore.filePath,
    ContentStore.shardPath, ContentStore.directory]

theorem farListed_directory (parts : Path) (hlength : parts.length < 3) :
    farListed (snapshotsDir ++ parts) = ∅ := by
  refine if_neg fun hpath => ?_
  have hlengths := congrArg List.length hpath
  simp [snapshotPath, snapshotsDir] at hlengths
  omega

theorem farFiles_listed : farFiles.listSnapshotIds "repo" = .ok {farId} := by
  rcases farFiles_snapshots with ⟨-, hroot, hdirectory, hfirst, hsecond⟩
  have hentries : ∀ path ∈ farFiles.below snapshotsDir, ∀ ids,
      farFiles.listSnapshotEntry "repo" ids path = .ok (ids ∪ farListed path) := by
    intro path hpath ids
    rw [farFiles_below] at hpath
    simp only [Finset.mem_insert, Finset.mem_singleton] at hpath
    rcases hpath with rfl | rfl | rfl
    · rw [RepositoryFiles.listSnapshotEntry_first hfirst,
        farListed_directory _ (by simp), Finset.union_empty]
    · rw [RepositoryFiles.listSnapshotEntry_second hsecond,
        farListed_directory _ (by simp), Finset.union_empty]
    · rw [RepositoryFiles.listSnapshotEntry_root hroot, farListed, if_pos rfl,
        Finset.insert_eq, Finset.union_comm]
  rw [RepositoryFiles.listSnapshotIds_eq hdirectory farListed hentries, farFiles_below,
    Finset.biUnion_insert, Finset.biUnion_insert, Finset.singleton_biUnion,
    farListed_directory _ (by simp), farListed_directory _ (by simp), farListed, if_pos rfl]
  simp

theorem farRoot_encoded : encodeRoot farRoot = .ok farRootBytes := by
  decide +kernel

theorem farFiles_read :
    (farFiles.snapshotRepository "repo").readSnapshotBytes farId = .ok farRootBytes := by
  have hroot : (farFiles.snapshotRepository "repo").roots farId = some farRootBytes :=
    farFiles_snapshots.2.1
  simp [SnapshotRepository.readSnapshotBytes, hroot, SnapshotRepository.readBytesBounded,
    not_lt.mpr (length_encodeRoot_le farRoot_encoded)]

theorem farRoot_far : ¬ FourDigitYear farRoot.created.unixSeconds := by
  decide +kernel

def farHeader : SnapshotRootHeader :=
  ⟨firstProject, none, farText, "first", "1.0", some root, ⟨2, 6, 16⟩⟩

theorem farFiles_header : (farFiles.snapshotRepository "repo").loadSnapshotRootHeader farChrono
    hash farId = .ok farHeader := by
  have htext : farChrono.canonicalUtc farRoot.created.unixSeconds farRoot.created.nanoseconds =
      some farText := by
    simp only [farChrono, if_neg farRoot_far]
  rw [SnapshotRepository.loadSnapshotRootHeader, farFiles_read, except_bind_ok, farId,
    decodeSnapshotRootHeader_encoded farRoot_encoded]
  exact ⟨farText, htext, rfl⟩

theorem leaf_encoded :
    encodeLeaf ⟨rangePrefix range, range.map KeyedEntry.entry⟩ = .ok leafBytes := by
  decide +kernel

theorem loadManifestChunk_leaf {repository : SnapshotRepository} {reference : ManifestRef}
    {bytes : Bytes} (hkind : reference.kind = .leaf)
    (hstored : repository.leaves reference.id = some bytes)
    (hlength : bytes.length ≤ maxManifestChunkBytes) :
    repository.loadManifestChunk reference = .ok bytes := by
  simp [SnapshotRepository.loadManifestChunk, hkind, hstored, SnapshotRepository.readBytesBounded,
    not_lt.mpr hlength, SnapshotRepository.coreToV2Error]

theorem snapshotRepository_leaves (files : RepositoryFiles) (display : String) (id : Digest32) :
    (files.snapshotRepository display).leaves id = files.file (manifestLeafPath id) := rfl

theorem farFiles_chunk :
    (farFiles.snapshotRepository "repo").loadManifestChunk root = .ok leafBytes := by
  apply loadManifestChunk_leaf rfl _ (length_encodeLeaf_le leaf_encoded)
  rw [snapshotRepository_leaves]
  exact farFiles_content.1

theorem holds_single {source : ManifestChunkSource} {reference : ManifestRef} {bytes : Bytes}
    (h : source reference = .ok bytes) : Holds (sourceTable source) [(reference, bytes)] := by
  intro chunk hchunk
  rw [List.mem_singleton.mp hchunk]
  exact sourceTable_eq_some.mpr h

theorem farFiles_accepted : (validateManifestCached hash tables
    (farFiles.snapshotRepository "repo").loadManifestChunk (some root) ⟨2, 6, 16⟩ .empty).1 =
      .ok () := by
  have hfits : FitsReader range := by
    unfold FitsReader
    decide +kernel
  have htotals : totals range = ⟨2, 6, 16⟩ := by
    decide +kernel
  exact (validateManifestCached_eq_ok cacheInv_empty _ _).mpr ⟨range, [(root, leafBytes)],
    ⟨range_valid, range_fit, range_canonical, holds_single farFiles_chunk, rfl⟩, htotals,
    (fitsBeside_empty_iff range_canonical).mpr hfits⟩

theorem firstPath_tracked : checkTrackedPath "Assets/a" = .ok () := by decide +kernel

theorem secondPath_tracked : checkTrackedPath "Assets/b" = .ok () := by decide +kernel

/-- What the walk notes: the object of both files. -/
def farMarks : Verification.Marks where
  objects := [(hash farContent, ⟨3, farId, ⟨"Assets/a", firstPath_tracked⟩⟩)]
  errors := []

theorem farMarks_object (path : String) : farMarks.object (entry path).objectId =
    some ⟨3, farId, ⟨"Assets/a", firstPath_tracked⟩⟩ := by
  have hobject : (hash farContent == (entry path).objectId) = true := rfl
  simp only [Verification.Marks.object, farMarks, List.find?_cons, hobject, Option.map_some]

theorem farMarks_collected : visitEntries (collectEntry farId) (range.map KeyedEntry.entry)
    ⟨[], []⟩ = (farMarks, .ok ()) := by
  have hfirst : collectEntry farId ⟨[], []⟩ (entry "Assets/a") = .ok farMarks := by
    have hpath : TrackedUnityFilePath.parse (entry "Assets/a").exactPath =
        .ok ⟨"Assets/a", firstPath_tracked⟩ :=
      TrackedUnityFilePath.parse_text ⟨"Assets/a", firstPath_tracked⟩
    rw [collectEntry, hpath]
    rfl
  have hsecond : collectEntry farId farMarks (entry "Assets/b") = .ok farMarks := by
    have hpath : TrackedUnityFilePath.parse (entry "Assets/b").exactPath =
        .ok ⟨"Assets/b", secondPath_tracked⟩ :=
      TrackedUnityFilePath.parse_text ⟨"Assets/b", secondPath_tracked⟩
    rw [collectEntry, hpath, except_bind_ok, farMarks_object]
    rfl
  have hentries : range.map KeyedEntry.entry = [entry "Assets/a", entry "Assets/b"] := rfl
  simp only [hentries, visitEntries, hfirst, hsecond]

theorem farFiles_walk : walkChunks (loadChunk hash (farFiles.snapshotRepository
    "repo").loadManifestChunk) farId (collectEntry farId) 1 [root] ⟨∅, ⟨[], []⟩⟩ =
      some (⟨{root}, farMarks⟩, .ok ()) := by
  have hload : loadChunk hash (farFiles.snapshotRepository "repo").loadManifestChunk root =
      .ok (.leaf ⟨rangePrefix range, range.map KeyedEntry.entry⟩ leafBytes) :=
    loadChunk_leaf farFiles_chunk leaf_encoded
  rw [walkChunks, if_neg (Finset.notMem_empty root), hload]
  simp only [DecodedChunk.leafEntries, farMarks_collected, DecodedChunk.childRefs,
    List.reverse_nil, List.append_nil, walkChunks]
  rfl

theorem farFiles_physical : farFiles.validatePhysicalSnapshotInventory hash "repo" firstProject =
    .ok [farId] := by
  rw [RepositoryFiles.validatePhysicalSnapshotInventory_ok farFiles_head farFiles_ids
    farFiles_listed, Finset.sort_singleton]

theorem farFiles_collected : collectReferences farChrono tables hash
    (farFiles.snapshotRepository "repo") firstProject 1 [farId] .empty ⟨∅, ⟨[], []⟩⟩ =
      some ⟨{root}, farMarks⟩ := by
  have haccepted := farFiles_accepted
  rcases hcached : validateManifestCached hash tables
    (farFiles.snapshotRepository "repo").loadManifestChunk (some root) ⟨2, 6, 16⟩ .empty with
    ⟨result, cache⟩
  rw [hcached] at haccepted
  simp only at haccepted
  subst haccepted
  simp only [collectReferences, collectSnapshotReferences, farFiles_header, farHeader, hcached,
    ne_eq, not_true_eq_false, if_false, Option.toList_some, farFiles_walk, Option.map_some]

theorem farFiles_objects : verifyReferencedObjects hash farFiles "repo" true farMarks = [] := by
  have hobject : verifyObject hash farFiles "repo" (hash farContent) 3 true = .ok () := by
    rw [verifyObject, farFiles_content.2]
    rfl
  simp only [verifyReferencedObjects, farMarks, List.mergeSort_singleton, List.foldl_cons,
    List.foldl_nil, verifyReferencedObject, hobject]

/-- A verification in which every step finds nothing. -/
theorem verifyProject_valid {files : RepositoryFiles} {projectId : ProjectId}
    {snapshotId : SnapshotId} {walk : Walk} {turns : Nat}
    (hconfig : ∃ config, files.loadRepoConfig configJson "repo" projectId = .ok config)
    (hphysical : files.validatePhysicalSnapshotInventory hash "repo" projectId = .ok [snapshotId])
    (hlisted : files.listSnapshotIds "repo" = .ok {snapshotId})
    (hlatest : files.readLatestSnapshotId "repo" = .ok none)
    (hcollected : collectReferences farChrono tables hash (files.snapshotRepository "repo")
      projectId turns [snapshotId] .empty ⟨∅, ⟨[], []⟩⟩ = some walk)
    (hobjects : verifyReferencedObjects hash files "repo" true walk.marks = []) :
    verifyProject farChrono tables hash configJson files "repo" projectId true turns =
      some (.ok ⟨true, [], files.warnInvalidSnapshotRootEntries "repo"⟩) := by
  obtain ⟨config, hconfig⟩ := hconfig
  simp only [verifyProject, hconfig, hphysical, hlisted, Finset.sort_singleton, pushFailure,
    if_true, hcollected, Option.map_some, hobjects, verifyLatest, hlatest, List.isEmpty_nil]

/-- The verification finds nothing. -/
theorem farFiles_verified : ∃ warnings, verifyProject farChrono tables hash configJson farFiles
    "repo" firstProject true 1 = some (.ok ⟨true, [], warnings⟩) := by
  have hlatest : farFiles.readLatestSnapshotId "repo" = .ok none := by
    rw [RepositoryFiles.readLatestSnapshotId, farFiles_snapshots.1]
    rfl
  exact ⟨_, verifyProject_valid ⟨_, farFiles_config⟩ farFiles_physical farFiles_listed hlatest
    farFiles_collected farFiles_objects⟩

/-- But the checkpoint does not load. -/
theorem farFiles_not_sound :
    ¬ SoundCheckpoint farChrono tables hash farFiles "repo" firstProject farId := by
  intro hsound
  rcases hsound.loads with ⟨snapshot, hloads⟩
  rcases farFiles_verified with ⟨warnings, hverified⟩
  rcases verifyProject_snapshots hverified rfl farFiles_listed farId (Finset.mem_singleton_self _)
    with ⟨found, header, entries, keys, haccepted, -, -⟩
  rcases haccepted.read with ⟨bytes, hbytes, -, hroot⟩
  obtain rfl := Except.ok.inj (farFiles_read.symm.trans hbytes)
  obtain rfl := Except.ok.inj ((decodeRoot_eq_ok.mpr farRoot_encoded).symm.trans hroot)
  exact farRoot_far (haccepted.plain_of_loads farChrono_lawful hloads).created

end Sample

/-- A repository that the verification accepts, with a checkpoint that does not load. -/
theorem verified_not_loaded : ∃ result,
    verifyProject Sample.farChrono Sample.tables Sample.hash Sample.configJson Sample.farFiles
      "repo" firstProject true 1 = some (.ok result) ∧ result.isValid = true ∧
    Sample.farFiles.listSnapshotIds "repo" = .ok {Sample.farId} ∧
    ¬ SoundCheckpoint Sample.farChrono Sample.tables Sample.hash Sample.farFiles "repo"
      firstProject Sample.farId := by
  rcases Sample.farFiles_verified with ⟨warnings, hverified⟩
  exact ⟨⟨true, [], warnings⟩, hverified, rfl, Sample.farFiles_listed,
    Sample.farFiles_not_sound⟩

theorem verification_sound_sample :
    (∀ snapshotId ∈ ({Sample.farId} : Finset SnapshotId), SoundCheckpoint Sample.farChrono
        Sample.tables Sample.hash Sample.farFiles "repo" firstProject snapshotId) ↔
      ∀ snapshotId ∈ ({Sample.farId} : Finset SnapshotId), ∀ root entries keys,
        StoredEntries Sample.tables Sample.hash (Sample.farFiles.snapshotRepository "repo")
          snapshotId root entries keys → PlainSnapshot root entries keys := by
  rcases Sample.farFiles_verified with ⟨warnings, hverified⟩
  exact verification_sound_iff Sample.farChrono Sample.farChrono_lawful Sample.tables Sample.hash
    Sample.configJson Sample.farFiles "repo" firstProject 1 ⟨true, [], warnings⟩ hverified rfl
    {Sample.farId} Sample.farFiles_listed

end CheckPo
