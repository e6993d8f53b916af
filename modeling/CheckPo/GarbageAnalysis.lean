/-
The analysis of a garbage collection: what the snapshots of the inventory refer to is
marked, and every other content-addressed file becomes a candidate for deletion.
-/
import CheckPo.SnapshotRoots
import CheckPo.ManifestWalk

namespace CheckPo

/-- A path at which something has no business to be. -/
structure InvalidLocation where
  path : Path
  reason : String
deriving DecidableEq

namespace RepositoryFiles

/-! The loose objects. -/

/-- `object_id_from_loose_relative_path`. -/
def objectIdFromLooseRelativePath (relative : Path) : Except String ObjectId :=
  match relative with
  | ["objects", "loose", first, hash] =>
      if (utf8 first).length ≠ 2 then
        .error "object path prefix must be two lowercase hex characters."
      else if (utf8 hash).length ≠ 64 then
        .error "object filename must be a 64 character BLAKE3 hash."
      else if (utf8 hash).take 2 ≠ utf8 first then
        .error "object path prefix does not match object hash."
      else match parseLowerHexId "object" hash with
        | .ok id => .ok id
        | .error error => .error error.message
  | _ => .error "object path must be objects/loose/<first2>/<hash>."

/-- The objects in the order of their ids, as the walk meets them. -/
structure ObjectInventory where
  objects : List (ObjectId × Path)
  invalidLocations : List InvalidLocation

def visitLooseEntry (files : RepositoryFiles) (inventory : ObjectInventory) (path : Path) :
    ObjectInventory :=
  match files.entry path with
  | some .link => { inventory with
      invalidLocations := inventory.invalidLocations ++
        [⟨path, "object storage symlinks and reparse points are not supported."⟩] }
  | some (.file _) =>
      if extension (path.getLastD "") = some "tmp" then inventory
      else match objectIdFromLooseRelativePath path with
        | .ok id => { inventory with objects := inventory.objects ++ [(id, path)] }
        | .error reason => { inventory with
            invalidLocations := inventory.invalidLocations ++ [⟨path, reason⟩] }
  | _ => inventory

def enumerateLooseObjects (files : RepositoryFiles) : ObjectInventory :=
  let top := ContentStore.object.directory
  if files.entry top = none then ⟨[], []⟩
  else (top :: files.walk top).foldl files.visitLooseEntry ⟨[], []⟩

/-! The manifest chunks. -/

structure ManifestChunkInventory where
  chunks : List (ManifestRef × Path × Nat)
  invalidLocations : List InvalidLocation

def ManifestChunkInventory.invalid (inventory : ManifestChunkInventory) (path : Path)
    (reason : String) : ManifestChunkInventory :=
  { inventory with invalidLocations := inventory.invalidLocations ++ [⟨path, reason⟩] }

/-- One entry of a chunk store.  The walk enters valid shards only. -/
def visitManifestEntry (files : RepositoryFiles) (store : ContentStore) (kind : ChunkKind)
    (inventory : ManifestChunkInventory) (path : Path) : ManifestChunkInventory :=
  let links := "manifest chunk storage symlinks and reparse points are not supported"
  match path.drop store.directory.length with
  | [shard] =>
      if files.entry path = some .link then inventory.invalid path links
      else if files.entry path = some .directory ∧ isLowerHex shard 2 = true then inventory
      else inventory.invalid path "invalid level 1 manifest shard directory"
  | [shard, name] =>
      if files.entry path.dropLast ≠ some .directory ∨ isLowerHex shard 2 = false then inventory
      else match files.entry path with
        | some .link => inventory.invalid path links
        | some (.file content) =>
            match parseLowerHexDigest name with
            | none => inventory.invalid path
                "manifest chunk filename is not a 64-character lowercase hex digest"
            | some digest =>
                if store.filePath digest ≠ path then inventory.invalid path
                  "manifest chunk is stored outside its digest shard path"
                else { inventory with
                  chunks := inventory.chunks ++ [(⟨kind, digest⟩, path, content.length)] }
        | _ => inventory.invalid path
            "manifest chunk is outside the canonical one-level shard layout"
  | _ => inventory

def enumerateManifestStore (files : RepositoryFiles) (root : String) (store : ContentStore)
    (kind : ChunkKind) (inventory : ManifestChunkInventory) :
    CheckPoResult ManifestChunkInventory :=
  match files.entry store.directory with
  | none => .error (.notFound (displayPath root store.directory))
  | some .directory =>
      .ok ((files.walk store.directory).foldl (files.visitManifestEntry store kind) inventory)
  | some _ => .ok (inventory.invalid store.directory
      "manifest chunk store is not a regular no-follow directory")

def enumerateManifestChunks (files : RepositoryFiles) (root : String) :
    CheckPoResult ManifestChunkInventory := do
  let nodes ← files.enumerateManifestStore root .manifestNode .node ⟨[], []⟩
  files.enumerateManifestStore root .manifestLeaf .leaf nodes

/-! The inventory's files. -/

section Hash

variable (blake3 : Bytes → Digest32)

/-- The walk over the states back to the first one, with the paths passed so far. -/
def reachableStates (store : InventoryStore) (projectId : ProjectId) (cursor : InventoryHead)
    (visited : Finset ObjectId) (reachable : Finset Path) : CheckPoResult (Finset Path) :=
  if cursor.id ∈ visited then
    .error (.corruption "snapshot inventory state chain contains a cycle")
  else
    match cursor.state.parent with
    | none => .ok (insert (inventoryStatePath cursor.id) reachable)
    | some parentId =>
        match store.loadState blake3 parentId projectId with
        | .error error => .error error
        | .ok parent =>
            if _h : checkedAdd parent.state.generation 1 = some cursor.state.generation then
              reachableStates store projectId parent (insert cursor.id visited)
                (insert (inventoryStatePath cursor.id) reachable)
            else .error (.corruption
              "snapshot inventory state generations are not contiguous")
termination_by cursor.state.generation.toNat
decreasing_by
  exact Nat.lt_of_succ_le (checkedAdd_eq_some.mp _h).le

def reachableLeaf (store : InventoryStore) (projectId : ProjectId) (reachable : Finset Path)
    (slot : Option LeafRef × Nat) : CheckPoResult (Finset Path) :=
  match slot.1 with
  | none => .ok reachable
  | some reference => do
      let _ ← store.loadSlotLeaf blake3 projectId reference (UInt8.ofNat slot.2)
      return insert (inventorySetLeafPath reference.id) reachable

def validateInventoryContentPath (root : String) (store : ContentStore) (path : Path) :
    CheckPoResult Unit :=
  let invalid := s!"snapshot inventory content path is invalid: {displayPath root path}"
  match path.drop store.directory.length with
  | [shard, fileName] =>
      if isLowerHex shard 2 = false then .error (.corruption invalid)
      else match stripSuffix store.suffix fileName with
        | none => .error (.corruption
            s!"snapshot inventory filename has the wrong suffix: {displayPath root path}")
        | some id =>
            match parseLowerHexId "object" id with
            | .error _ => .error (.corruption
                s!"snapshot inventory filename has an invalid id: {displayPath root path}")
            | .ok id =>
                if shard ≠ hexByte id.firstByte then
                  .error (.corruption
                    s!"snapshot inventory shard does not match its id: {displayPath root path}")
                else .ok ()
  | _ => .error (.corruption invalid)

def visitInventoryEntry (files : RepositoryFiles) (root : String) (store : ContentStore)
    (reachable : Finset Path) (candidates : List (Path × Nat)) (path : Path) :
    CheckPoResult (List (Path × Nat)) :=
  match files.entry path with
  | some .link => .error (.corruption
      s!"snapshot inventory contains a symbolic link or reparse point: {displayPath root path}")
  | some .directory =>
      match path.drop store.directory.length with
      | [shard] =>
          if isLowerHex shard 2 = true then .ok candidates
          else .error (.corruption
            s!"snapshot inventory contains an unexpected directory: {displayPath root path}")
      | _ => .error (.corruption
          s!"snapshot inventory contains an unexpected directory: {displayPath root path}")
  | some (.file content) => do
      validateInventoryContentPath root store path
      return if path ∈ reachable then candidates else candidates ++ [(path, content.length)]
  | _ => .error (.corruption
      s!"snapshot inventory contains a non-regular entry: {displayPath root path}")

def visitInventoryStore (files : RepositoryFiles) (root : String) (reachable : Finset Path)
    (candidates : List (Path × Nat)) (store : ContentStore) :
    CheckPoResult (List (Path × Nat)) :=
  if files.entry store.directory = none then
    .error (.corruption s!"IO error for operation on {displayPath root store.directory}")
  else (files.walk store.directory).foldlM (files.visitInventoryEntry root store reachable)
    candidates

def inventoryGcCandidates (files : RepositoryFiles) (root : String) (projectId : ProjectId) :
    CheckPoResult (List (Path × Nat)) := do
  let store := files.inventoryStore root
  let head ← store.inventoryHead blake3 projectId
  let setRoot ← store.loadStateRoot blake3 projectId head.state
  let states ← reachableStates blake3 store projectId head ∅ ∅
  let reachable ← setRoot.leaves.zipIdx.foldlM (reachableLeaf blake3 store projectId)
    (insert (inventorySetRootPath head.state.setRoot) states)
  let candidates ← [ContentStore.inventoryState, .inventorySetRoot, .inventorySetLeaf].foldlM
    (files.visitInventoryStore root reachable) []
  return candidates.mergeSort fun left right => decide (left.1 ≤ right.1)

end Hash

end RepositoryFiles

/-! Marking what the snapshots refer to. -/

structure MissingBlobReference where
  checkpointId : SnapshotId
  path : TrackedUnityFilePath
  objectId : ObjectId

structure ReferencedObject where
  firstReference : MissingBlobReference
  expectedSizeBytes : UInt64

/-- `referenced` and `reference_integrity_problems`; the maps keep the first value of a
key. -/
structure GcMarks where
  objects : List (ObjectId × ReferencedObject)
  problems : List (ObjectId × String)

namespace GcMarks

def empty : GcMarks := ⟨[], []⟩

def object (marks : GcMarks) (id : ObjectId) : Option ReferencedObject :=
  (marks.objects.find? fun entry => entry.1 == id).map Prod.snd

/-- `entry(id).or_insert_with(..)`. -/
def addProblem (marks : GcMarks) (id : ObjectId) (problem : String) : GcMarks :=
  if marks.problems.any (fun entry => entry.1 == id) = true then marks
  else { marks with problems := marks.problems ++ [(id, problem)] }

end GcMarks

structure SkippedSnapshot where
  checkpointId : SnapshotId
  reason : String

section Hash

variable (chrono : Chrono) (tables : UnicodeTables) (blake3 : Bytes → Digest32)

def markEntry (snapshotId : SnapshotId) (marks : GcMarks) (entry : ManifestEntry) :
    CheckPoResult GcMarks := do
  let path ← TrackedUnityFilePath.parse entry.exactPath
  match marks.object entry.objectId with
  | none => return { marks with objects := marks.objects ++
      [(entry.objectId, ⟨⟨snapshotId, path, entry.objectId⟩, entry.sizeBytes⟩)] }
  | some known =>
      if known.expectedSizeBytes ≠ entry.sizeBytes then
        return marks.addProblem entry.objectId
          s!"object has conflicting expected sizes {known.expectedSizeBytes} and {entry.sizeBytes} across checkpoints"
      else return marks

/-- `inspect_and_mark_snapshot`, with the cache and the marks afterwards. -/
def inspectAndMarkSnapshot (repository : SnapshotRepository) (projectId : ProjectId)
    (turns : Nat) (snapshotId : SnapshotId) (cache : ManifestValidationCache)
    (marks : ChunkWalk GcMarks) :
    Option (ManifestValidationCache × ChunkWalk GcMarks × CheckPoResult Unit) :=
  match repository.loadSnapshotRootHeader chrono blake3 snapshotId with
  | .error error => some (cache, marks, .error error)
  | .ok root =>
      let source := repository.loadManifestChunk
      match validateManifestCached blake3 tables source root.manifest root.summary cache with
      | (.error error, cache) =>
          some (cache, marks, .error (.corruption s!"{snapshotId.toHex}: {error.message}"))
      | (.ok (), cache) =>
          if root.projectId ≠ projectId then
            some (cache, marks, .error (.corruption
              "snapshot project id does not match repository project id"))
          else (walkChunks (loadChunk blake3 source) snapshotId (markEntry snapshotId) turns
              root.manifest.toList marks).map fun result => (cache, result)

/-- The loop over the snapshots: the cache, the marks and the skipped snapshots. -/
def markSnapshots (repository : SnapshotRepository) (projectId : ProjectId) (turns : Nat) :
    List SnapshotId → ManifestValidationCache → ChunkWalk GcMarks →
      Option (ChunkWalk GcMarks × List SkippedSnapshot)
  | [], _, marks => some (marks, [])
  | snapshotId :: rest, cache, marks =>
      match inspectAndMarkSnapshot chrono tables blake3 repository projectId turns snapshotId
          cache marks with
      | none => none
      | some (cache, marks, result) =>
          (markSnapshots repository projectId turns rest (resetValidationCache cache)
            marks).map fun (marks, skipped) => (marks, match result with
              | .ok () => skipped
              | .error error => ⟨snapshotId, error.message⟩ :: skipped)

end Hash

/-- The check of the objects that are referred to: the marks with the sizes that do not
match, and the references whose objects are missing. -/
def checkReferences (files : RepositoryFiles) :
    List (ObjectId × ReferencedObject) → GcMarks → GcMarks × List MissingBlobReference
  | [], marks => (marks, [])
  | (objectId, reference) :: rest, marks =>
      match files.entry (objectPath objectId) with
      | some (.file content) =>
          checkReferences files rest
            (if content.length ≠ reference.expectedSizeBytes.toNat then
              marks.addProblem objectId
                s!"reachable object size mismatch: expected {reference.expectedSizeBytes} bytes, found {content.length} bytes"
            else marks)
      | _ =>
          let (marks, missing) := checkReferences files rest marks
          (marks, reference.firstReference :: missing)

/-! The plan. -/

structure UnreferencedBlob where
  objectId : ObjectId
  objectPath : Path
  sizeBytes : Nat

structure StorageGcPlan where
  planId : String
  unreferencedBlobs : List UnreferencedBlob
  unreferencedManifestChunks : List (Path × Nat)
  unreferencedInventoryNodes : List (Path × Nat)
  missingReferences : List MissingBlobReference
  invalidObjectLocations : List InvalidLocation
  invalidManifestChunkLocations : List InvalidLocation
  skippedSnapshots : List SkippedSnapshot
  hasIntegrityProblems : Bool

structure StorageGcAnalysis where
  plan : StorageGcPlan
  candidateFingerprints : List (Path × String)

def StorageGcAnalysis.fingerprint (analysis : StorageGcAnalysis) (path : Path) : Option String :=
  (analysis.candidateFingerprints.find? fun entry => entry.1 == path).map Prod.snd

def hashPlanField (value : Bytes) : Bytes := Writer.u64 (UInt64.ofNat value.length) ++ value

/-- A candidate in the digest of the plan. -/
def hashPlanCandidate (tag : String) (fields : Bytes) (path : Path) (sizeBytes : Nat)
    (fingerprint : String) : Bytes :=
  utf8 tag ++ (fields ++ (hashPlanField (utf8 ("/".intercalate path)) ++
    (Writer.u64 (UInt64.ofNat sizeBytes) ++ hashPlanField (utf8 fingerprint))))

section Hash

variable (blake3 : Bytes → Digest32)

/-- The digest of what the plan would delete. -/
def storageGcPlanId (projectId : ProjectId) (inventoryHead : String) (blobs : List UnreferencedBlob)
    (chunks nodes : List (Path × Nat)) (fingerprint : Path → String) : String :=
  (blake3 ("checkpo.storage-gc-plan.v2".toByteArray.data.toList ++ (0 ::
    (hashPlanField (utf8 (projectIdText projectId)) ++
      (hashPlanField (utf8 inventoryHead) ++
        ((blobs.flatMap fun blob => hashPlanCandidate "o" (hashPlanField (utf8 blob.objectId.toHex))
            blob.objectPath blob.sizeBytes (fingerprint blob.objectPath)) ++
          ((chunks.flatMap fun chunk => hashPlanCandidate "m" [] chunk.1 chunk.2
              (fingerprint chunk.1)) ++
            (nodes.flatMap fun node => hashPlanCandidate "i" [] node.1 node.2
              (fingerprint node.1))))))))).toHex

variable (chrono : Chrono) (tables : UnicodeTables)
-- the identity and version of a file, or else its content hash, as a text
variable (fingerprint : Path → Bytes → String)

def strongAnchoredFileFingerprint (files : RepositoryFiles) (root : String) (path : Path)
    (expectedSize : Nat) : CheckPoResult String :=
  match files.entry path with
  | none => .error (.notFound (displayPath root path))
  | some (.file content) =>
      if content.length ≠ expectedSize then
        .error (.workingTreeChanged
          s!"planned file size changed during analysis: {displayPath root path} (expected {expectedSize}, found {content.length})")
      else .ok (fingerprint path content)
  | some _ => .error (.corruption s!"unsafe regular file path: {displayPath root path}")

def fingerprintCandidates (files : RepositoryFiles) (root : String)
    (candidates : List (Path × Nat)) : CheckPoResult (List (Path × String)) :=
  candidates.mapM fun candidate => do
    return (candidate.1,
      ← strongAnchoredFileFingerprint fingerprint files root candidate.1 candidate.2)

/-- The plan of a repository whose snapshots have been marked. -/
def planGc (files : RepositoryFiles) (root : String) (projectId : ProjectId)
    (inventoryHead : String) (walk : ChunkWalk GcMarks) (skippedSnapshots : List SkippedSnapshot) :
    CheckPoResult StorageGcAnalysis := do
  let marked := walk.marks
  let (marks, missingReferences) := checkReferences files
    (marked.objects.mergeSort fun left right => decide (left.1 ≤ right.1)) marked
  let loose := files.enumerateLooseObjects
  let invalidObjectLocations := loose.invalidLocations ++
    (marks.problems.mergeSort fun left right => decide (left.1 ≤ right.1)).map
      fun problem => ⟨objectPath problem.1, problem.2⟩
  let unreferencedBlobs := (loose.objects.filter fun object =>
    (marked.object object.1).isNone).map fun object =>
      ⟨object.1, object.2, ((files.file object.2).map List.length).getD 0⟩
  let stored ← files.enumerateManifestChunks root
  let unreferencedManifestChunks := ((stored.chunks.filter fun chunk =>
    decide (chunk.1 ∉ walk.chunks)).map Prod.snd).mergeSort
      fun left right => decide (left.1 ≤ right.1)
  let unreferencedInventoryNodes ← files.inventoryGcCandidates blake3 root projectId
  let candidateFingerprints ← fingerprintCandidates fingerprint files root
    ((unreferencedBlobs.map fun blob => (blob.objectPath, blob.sizeBytes)) ++
      (unreferencedManifestChunks ++ unreferencedInventoryNodes))
  let again ← (files.inventoryStore root).inventoryHead blake3 projectId
  if again.id.toHex ≠ inventoryHead then
    .error (.workingTreeChanged "checkpoint inventory changed during storage GC analysis")
  else return {
    plan := {
      planId := storageGcPlanId blake3 projectId inventoryHead unreferencedBlobs
        unreferencedManifestChunks unreferencedInventoryNodes fun path =>
          ((candidateFingerprints.find? fun entry => entry.1 == path).map Prod.snd).getD ""
      unreferencedBlobs, unreferencedManifestChunks, unreferencedInventoryNodes
      missingReferences, invalidObjectLocations
      invalidManifestChunkLocations := stored.invalidLocations
      skippedSnapshots
      hasIntegrityProblems := !missingReferences.isEmpty || !invalidObjectLocations.isEmpty ||
        !stored.invalidLocations.isEmpty || !skippedSnapshots.isEmpty }
    candidateFingerprints }

/-- The snapshots that the analysis inspects, and the head they belong to. -/
def inspectedSnapshots (files : RepositoryFiles) (root : String) (projectId : ProjectId) :
    CheckPoResult (String × List SnapshotId) := do
  let head ← (files.inventoryStore root).inventoryHead blake3 projectId
  files.validateSnapshotRootInventory root
  let ids ← files.validatePhysicalSnapshotInventory blake3 root projectId
  return (head.id.toHex, ids)

/-- `none` means that the bound on the turns of the marking was too small. -/
def analyzeGcForProject (files : RepositoryFiles) (root : String) (projectId : ProjectId)
    (turns : Nat) : Option (CheckPoResult StorageGcAnalysis) :=
  match inspectedSnapshots blake3 files root projectId with
  | .error error => some (.error error)
  | .ok (head, ids) =>
      (markSnapshots chrono tables blake3 (files.snapshotRepository root) projectId turns ids
        .empty ⟨∅, .empty⟩).map fun (marks, skipped) =>
          planGc blake3 fingerprint files root projectId head marks skipped

end Hash

end CheckPo
