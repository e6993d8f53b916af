/-
What a valid verification says of every snapshot: its root can be read, its manifest is
valid on its own, and the objects of its entries are stored with their sizes and hashes.
-/
import CheckPo.Verification
import CheckPo.AncestorConflicts

namespace CheckPo

/-! Errors that are collected. -/

theorem pushVerificationError_ne_nil (errors : List String) (error : String) :
    pushVerificationError errors error ≠ [] := by
  rw [pushVerificationError]
  split_ifs with hfew hlimit
  · simp
  · simp
  · rintro rfl
    exact hfew (by decide)

theorem pushFailure_eq_nil {α : Type} {errors : List String} {result : CheckPoResult α} :
    pushFailure errors result = [] ↔ errors = [] ∧ ∃ value, result = .ok value := by
  cases result with
  | ok value => simp [pushFailure]
  | error error => simp [pushFailure, pushVerificationError_ne_nil]

namespace Verification

section Hash

variable {chrono : Chrono} {tables : UnicodeTables} {blake3 : Bytes → Digest32}
  {files : RepositoryFiles} {root : String} {full : Bool}

theorem verifyReferencedObject_eq_nil {errors : List String}
    {object : ObjectId × ReferencedObject} :
    verifyReferencedObject blake3 files root full errors object = [] ↔ errors = [] ∧
      verifyObject blake3 files root object.1 object.2.expectedSizeBytes full = .ok () := by
  rw [verifyReferencedObject]
  cases verifyObject blake3 files root object.1 object.2.expectedSizeBytes full with
  | ok _ => simp
  | error error => simp [pushVerificationError_ne_nil]

theorem verifyReferencedObjects_eq_nil {marks : Marks} :
    verifyReferencedObjects blake3 files root full marks = [] ↔ marks.errors = [] ∧
      ∀ object ∈ marks.objects,
        verifyObject blake3 files root object.1 object.2.expectedSizeBytes full = .ok () := by
  have hfold : ∀ (objects : List (ObjectId × ReferencedObject)) (errors : List String),
      objects.foldl (verifyReferencedObject blake3 files root full) errors = [] ↔ errors = [] ∧
        ∀ object ∈ objects,
          verifyObject blake3 files root object.1 object.2.expectedSizeBytes full = .ok () := by
    intro objects
    induction objects with
    | nil => simp
    | cons object rest ih =>
        intro errors
        rw [List.foldl_cons, ih, verifyReferencedObject_eq_nil, List.forall_mem_cons, and_assoc]
  rw [verifyReferencedObjects, hfold]
  simp only [List.mem_mergeSort]

theorem errors_of_verifyLatest {errors : List String}
    (h : verifyLatest chrono blake3 files root errors = []) : errors = [] := by
  rw [verifyLatest] at h
  split at h
  · exact absurd h (pushVerificationError_ne_nil _ _)
  · exact h
  · split at h
    · exact h
    · exact absurd h (pushVerificationError_ne_nil _ _)

/-- An object file of this size and hash. -/
def Stored (blake3 : Bytes → Digest32) (files : RepositoryFiles) (id : ObjectId)
    (sizeBytes : UInt64) : Prop :=
  ∃ content, files.file (objectPath id) = some content ∧
    content.length = sizeBytes.toNat ∧ blake3 content = id

theorem verifyObject_eq_ok {id : ObjectId} {sizeBytes : UInt64} :
    verifyObject blake3 files root id sizeBytes true = .ok () ↔
      Stored blake3 files id sizeBytes := by
  rw [verifyObject, Stored]
  simp only [FileTree.file_eq_some]
  cases files.entry (objectPath id) with
  | none => simp
  | some entry =>
      cases entry with
      | file content => simp
      | directory => simp
      | link => simp
      | special => simp

/-! What the walk notes of an entry. -/

theorem Marks.object_append {marks : Marks} {id other : ObjectId} {reference : ReferencedObject} :
    ({ marks with objects := marks.objects ++ [(other, reference)] } : Marks).object id =
      (marks.object id).or (if other = id then some reference else none) := by
  simp only [Marks.object, List.find?_append, List.find?_singleton, beq_iff_eq]
  cases marks.objects.find? fun entry => entry.1 == id with
  | some found => rfl
  | none =>
      by_cases hsame : other = id
      · simp [hsame]
      · simp [hsame]

theorem Marks.object_mem {marks : Marks} {id : ObjectId} {reference : ReferencedObject}
    (h : marks.object id = some reference) : (id, reference) ∈ marks.objects := by
  rw [Marks.object, Option.map_eq_some_iff] at h
  rcases h with ⟨⟨found, value⟩, hfind, rfl⟩
  have hid : found = id := by simpa using List.find?_some hfind
  exact hid ▸ List.mem_of_find?_eq_some hfind

/-- While there are no errors, the entry's path is a tracked one, and its object is
expected with its size. -/
def Noted (marks : Marks) (entry : LeafEntry) : Prop :=
  marks.errors = [] → (∃ path, TrackedUnityFilePath.parse entry.exactPath = .ok path) ∧
    ∃ reference, marks.object entry.objectId = some reference ∧
      reference.expectedSizeBytes = entry.sizeBytes

theorem collectEntry_notes (snapshotId : SnapshotId) :
    Notes (collectEntry snapshotId) Noted := by
  intro marks entry marks' h
  simp only [collectEntry, except_bind_eq_ok] at h
  rcases h with ⟨path, hpath, h⟩
  cases hobject : marks.object entry.objectId with
  | none =>
      simp only [hobject, except_pure_eq_ok] at h
      subst h
      constructor
      · intro _
        refine ⟨⟨path, hpath⟩, ⟨entry.sizeBytes, snapshotId, path⟩, ?_, rfl⟩
        rw [Marks.object_append, hobject, if_pos rfl, Option.none_or]
      · intro other hother herrors
        rcases hother herrors with ⟨hparsed, reference, hreference, hsize⟩
        refine ⟨hparsed, reference, ?_, hsize⟩
        rw [Marks.object_append, hreference, Option.some_or]
  | some known =>
      simp only [hobject] at h
      split at h
      · rw [except_pure_eq_ok] at h
        subst h
        have hnone : (marks.push
            s!"{snapshotId.toHex}: object {entry.objectId.toHex} has conflicting expected sizes: {known.expectedSizeBytes} in snapshot {known.firstSnapshotId.toHex}, {entry.sizeBytes} for {path.text}").errors ≠ [] :=
          pushVerificationError_ne_nil _ _
        exact ⟨fun herrors => absurd herrors hnone, fun _ _ herrors => absurd herrors hnone⟩
      · next hsize =>
          rw [except_pure_eq_ok] at h
          subst h
          exact ⟨fun _ => ⟨⟨path, hpath⟩, known, hobject, not_not.mp hsize⟩, fun _ => id⟩

/-- An error is never taken back. -/
theorem collectEntry_errors {snapshotId : SnapshotId} {marks marks' : Marks} {entry : LeafEntry}
    (h : collectEntry snapshotId marks entry = .ok marks') (herrors : marks.errors ≠ []) :
    marks'.errors ≠ [] := by
  simp only [collectEntry, except_bind_eq_ok] at h
  rcases h with ⟨path, -, h⟩
  split at h
  · rw [except_pure_eq_ok] at h
    exact h ▸ herrors
  · split at h
    · rw [except_pure_eq_ok] at h
      exact h ▸ pushVerificationError_ne_nil _ _
    · rw [except_pure_eq_ok] at h
      exact h ▸ herrors

/-! The loop over the snapshots. -/

variable {repository : SnapshotRepository} {projectId : ProjectId} {turns : Nat}

/-- A snapshot whose root can be read and whose manifest is valid. -/
structure Readable (chrono : Chrono) (tables : UnicodeTables) (blake3 : Bytes → Digest32)
    (repository : SnapshotRepository) (projectId : ProjectId) (snapshotId : SnapshotId)
    (header : SnapshotRootHeader) : Prop where
  header_eq : repository.loadSnapshotRootHeader chrono blake3 snapshotId = .ok header
  project : header.projectId = projectId
  accepted : validateManifest blake3 tables repository.loadManifestChunk header.manifest
    header.summary = .ok ()

/-- A root that a shared cache accepts is valid on its own. -/
theorem validateManifest_of_cached {source : ManifestChunkSource}
    {cache : ManifestValidationCache} (hcache : CacheInv blake3 tables source [] cache)
    {manifest : Option ManifestRef} {summary : ManifestSummary}
    (h : (validateManifestCached blake3 tables source manifest summary cache).1 = .ok ()) :
    validateManifest blake3 tables source manifest summary = .ok () := by
  cases manifest with
  | none =>
      rw [← h]
      simp only [validateManifest, validateManifestCached]
      split <;> rfl
  | some reference =>
      rcases (validateManifestCached_eq_ok hcache reference summary).mp h with
        ⟨range, added, hverified, hsummary, hfits⟩
      exact (validateManifestCached_eq_ok cacheInv_empty reference summary).mpr
        ⟨range, added, hverified, hsummary, hverified.fits_empty hcache hfits⟩

/-- What is known of the snapshots that were walked, while there are no errors. -/
structure Walked (chrono : Chrono) (tables : UnicodeTables) (blake3 : Bytes → Digest32)
    (repository : SnapshotRepository) (projectId : ProjectId) (ids : List SnapshotId)
    (walk : Walk) : Prop where
  passed : Passed (storedGraph blake3 repository.loadManifestChunk) Noted [] walk
  readable : ∀ snapshotId ∈ ids, ∃ header,
    Readable chrono tables blake3 repository projectId snapshotId header ∧
      ∀ manifest ∈ header.manifest, manifest ∈ walk.chunks

/-- One snapshot without an error. -/
theorem collectSnapshotReferences_ok {snapshotId : SnapshotId} (ids : List SnapshotId)
    {cache cache' : ManifestValidationCache} {walk walk' : Walk}
    {result : CheckPoResult Unit}
    (hcache : CacheInv blake3 tables repository.loadManifestChunk [] cache)
    (h : collectSnapshotReferences chrono tables blake3 repository projectId turns snapshotId
      cache walk = some (cache', walk', result)) :
    CacheInv blake3 tables repository.loadManifestChunk [] cache' ∧
      (walk'.marks.errors = [] → walk.marks.errors = []) ∧
      (result = .ok () → walk'.marks.errors = [] →
        Walked chrono tables blake3 repository projectId ids walk →
        Walked chrono tables blake3 repository projectId (ids ++ [snapshotId]) walk') := by
  rw [collectSnapshotReferences] at h
  cases hheader : repository.loadSnapshotRootHeader chrono blake3 snapshotId with
  | error error =>
      rw [hheader, Option.some.injEq, Prod.mk.injEq, Prod.mk.injEq] at h
      rcases h with ⟨rfl, rfl, rfl⟩
      exact ⟨hcache, id, fun h => absurd h nofun⟩
  | ok header =>
      simp only [hheader] at h
      have hsound := (validateManifestCached_sound hcache header.manifest header.summary).1
      cases hvalid : validateManifestCached blake3 tables repository.loadManifestChunk
          header.manifest header.summary cache with
      | mk validated cacheAfter =>
          rw [hvalid] at h hsound
          cases validated with
          | error error =>
              simp only [Option.some.injEq, Prod.mk.injEq] at h
              rcases h with ⟨rfl, rfl, rfl⟩
              exact ⟨hsound, id, fun h => absurd h nofun⟩
          | ok _ =>
              simp only [Option.map_eq_some_iff, Prod.mk.injEq] at h
              rcases h with ⟨⟨walkAfter, walkResult⟩, hwalk, rfl, rfl, rfl⟩
              have hkeeps := mt (walkChunks_keeps (fun marks => marks.errors ≠ [])
                (fun marks entry marks' => collectEntry_errors) hwalk)
              rw [not_not, not_not] at hkeeps
              refine ⟨hsound, ?_, ?_⟩
              · intro herrors
                by_cases hproject : header.projectId = projectId
                · rw [if_neg (not_not.mpr hproject)] at hkeeps
                  exact hkeeps herrors
                · rw [if_pos hproject] at hkeeps
                  exact absurd (hkeeps herrors) (pushVerificationError_ne_nil _ _)
              · rintro rfl herrors hwalked
                have hproject : header.projectId = projectId := by
                  by_contra hother
                  rw [if_pos hother] at hkeeps
                  exact pushVerificationError_ne_nil _ _ (hkeeps herrors)
                rw [if_neg (not_not.mpr hproject)] at hwalk
                rcases (hwalked.passed.mono (List.nil_subset _)).walk
                  (collectEntry_notes snapshotId) hwalk with ⟨hpassed, hsub, hpending⟩
                refine ⟨hpassed, fun id hid => ?_⟩
                rcases List.mem_append.mp hid with hid | hid
                · rcases hwalked.readable id hid with ⟨known, hknown, hchunks⟩
                  exact ⟨known, hknown, fun manifest hmanifest => hsub (hchunks manifest hmanifest)⟩
                · rw [List.mem_singleton.mp hid]
                  refine ⟨header, ⟨hheader, hproject, ?_⟩, fun manifest hmanifest => ?_⟩
                  · exact validateManifest_of_cached hcache (congrArg Prod.fst hvalid)
                  · exact hpending manifest (Option.mem_toList.mpr hmanifest)

/-- The whole loop without an error. -/
theorem collectReferences_walked {ids : List SnapshotId} (passed : List SnapshotId)
    {cache : ManifestValidationCache} {walk walk' : Walk}
    (hcache : CacheInv blake3 tables repository.loadManifestChunk [] cache)
    (hwalked : walk.marks.errors = [] →
      Walked chrono tables blake3 repository projectId passed walk)
    (h : collectReferences chrono tables blake3 repository projectId turns ids cache walk =
      some walk') (herrors : walk'.marks.errors = []) :
    walk.marks.errors = [] ∧
      Walked chrono tables blake3 repository projectId (passed ++ ids) walk' := by
  induction ids generalizing passed cache walk with
  | nil =>
      rw [collectReferences, Option.some.injEq] at h
      subst h
      rw [List.append_nil]
      exact ⟨herrors, hwalked herrors⟩
  | cons snapshotId rest ih =>
      rw [collectReferences] at h
      cases hstep : collectSnapshotReferences chrono tables blake3 repository projectId turns
          snapshotId cache walk with
      | none => rw [hstep] at h; exact absurd h nofun
      | some step =>
          rcases step with ⟨cache', walkAfter, result⟩
          simp only [hstep] at h
          rcases collectSnapshotReferences_ok passed hcache hstep with
            ⟨hcache', hkeeps, hnext⟩
          cases result with
          | error error =>
              have hfailed := (ih passed hcache'.reset
                (fun herrors => absurd herrors (pushVerificationError_ne_nil _ _)) h).1
              exact absurd hfailed (pushVerificationError_ne_nil _ _)
          | ok _ =>
              rcases ih (passed ++ [snapshotId]) hcache'.reset (fun herrors =>
                hnext rfl herrors (hwalked (hkeeps herrors))) h with ⟨hafter, hall⟩
              rw [List.append_assoc, List.singleton_append] at hall
              exact ⟨hkeeps hafter, hall⟩

end Hash

end Verification

end CheckPo
