/-
Applying a garbage collection: the candidates are deleted one after the other, each
through a tombstone name, and shard directories that are left empty go with them.  Every
rename and every removal is a durable step after which the run may stop.  Where the system
refuses a step, the collection ends and says how far it came.
-/
import CheckPo.AnchoredRemoval
import CheckPo.GarbageAnalysis

namespace CheckPo

/-- What has been deleted of one kind of candidates. -/
structure DeletedCandidates where
  count : Nat
  bytes : Nat

structure StorageGcResult where
  plan : StorageGcPlan
  applied : Bool
  completed : Bool
  committedPartially : Bool
  deletedBlobCount : Nat
  deletedManifestChunkCount : Nat
  deletedManifestChunkBytes : Nat
  deletedInventoryNodeCount : Nat
  deletedInventoryNodeBytes : Nat
  deletedBytes : Nat
  failedCandidate : Option Path
  failure : Option String
  remainingCandidateCount : Nat

/-- `truncate_gc_plan_details`. -/
def truncateGcPlanDetails (plan : StorageGcPlan) (limit : Nat) : StorageGcPlan :=
  { plan with
    unreferencedBlobs := plan.unreferencedBlobs.take limit
    unreferencedManifestChunks := plan.unreferencedManifestChunks.take limit
    unreferencedInventoryNodes := plan.unreferencedInventoryNodes.take limit
    missingReferences := plan.missingReferences.take limit
    invalidObjectLocations := plan.invalidObjectLocations.take limit
    invalidManifestChunkLocations := plan.invalidManifestChunkLocations.take limit
    skippedSnapshots := plan.skippedSnapshots.take limit }

/-- The first of these stores in which a path lies. -/
def storeOf (stores : List ContentStore) (path : Path) : Option ContentStore :=
  stores.find? fun store => decide (store.directory <+: path)

/-- `removed` and the error of the sync after it. -/
structure RepoFileRemoval where
  removed : Bool
  postUnlinkError : Option CheckPoError

section Run

variable (root : String)
variable (uuid : RepositoryFiles → Path → Nat → String)
variable (refuses : Refusals)

/-- `remove_empty_repo_dirs_anchored`; the components of the path are reversed. -/
def removeEmptyRepoDirs (stopAt : Path) : List String → RepositoryM Unit
  | [] => return ()
  | name :: above =>
      if (name :: above).reverse = stopAt then return ()
      else do
        match ← Durable.attempt (unlinkDir root uuid refuses (name :: above).reverse) with
        | .ok () => do
            Durable.inspect (ask root refuses .sync above.reverse)
            removeEmptyRepoDirs stopAt above
        | .error (.notFound _) => return ()
        | .error (.io path message) =>
            if message = directoryNotEmpty then return ()
            else Durable.lift (.error (.io path message))
        | .error error => Durable.lift (.error error)

variable (fingerprint : Path → Bytes → String)

/-- The parent is held, and the file in it is opened. -/
def openPlannedFile (path : Path) (files : RepositoryFiles) : CheckPoResult Bytes := do
  ask root refuses .openAt path.dropLast files
  openDirectoryForMutation root path.dropLast files
  ask root refuses .openAt path files
  openFile root path files
  orError (files.file path) (.notFound (displayPath root path))

/-- `remove_repo_file_if_bound`; a file that is not there is no error. -/
def removeRepoFileIfBound (path : Path) (expectedSize : Nat) (expectedFingerprint : String) :
    RepositoryM RepoFileRemoval := do
  match ← Durable.inspect fun files => .ok (openPlannedFile root refuses path files) with
  | .error (.notFound _) => return ⟨false, none⟩
  | .error error => Durable.lift (.error error)
  | .ok content =>
      if content.length ≠ expectedSize then
        Durable.lift (.error (.workingTreeChanged
          s!"GC target changed before deletion: {displayPath root path} (expected {expectedSize} bytes, found {content.length} bytes)"))
      else if fingerprint path content ≠ expectedFingerprint then
        Durable.lift (.error (.workingTreeChanged
          s!"GC target identity or version changed before deletion: {displayPath root path}"))
      else do
        unlinkFile root uuid refuses path
        match ← Durable.inspect fun files => .ok (ask root refuses .sync path.dropLast files) with
        | .ok () => return ⟨true, none⟩
        | .error error => return ⟨true, some error⟩

/-- One candidate: whether it was removed, and the result.  `stopAt` is asked for only
when the candidate has been removed and its directory synced. -/
def deleteCandidate (analysis : StorageGcAnalysis) (missing : String)
    (stopAt : CheckPoResult Path) (candidate : Path × Nat) :
    RepositoryM (Bool × CheckPoResult Unit) :=
  match analysis.fingerprint candidate.1 with
  | none => return (false, .error (.corruption missing))
  | some expectedFingerprint => do
      match ← Durable.attempt (removeRepoFileIfBound root uuid refuses fingerprint candidate.1
          candidate.2 expectedFingerprint) with
      | .error error => return (false, .error error)
      | .ok ⟨false, _⟩ => return (false, .ok ())
      | .ok ⟨true, some error⟩ => return (true, .error error)
      | .ok ⟨true, none⟩ =>
          match stopAt with
          | .error error => return (true, .error error)
          | .ok stopAt =>
              let result ← Durable.attempt
                (removeEmptyRepoDirs root uuid refuses stopAt candidate.1.dropLast.reverse)
              return (true, result)

def deleteBlob (analysis : StorageGcAnalysis) (candidate : Path × Nat) :
    RepositoryM (Bool × CheckPoResult Unit) :=
  deleteCandidate root uuid refuses fingerprint analysis "GC object fingerprint is missing"
    (.ok ContentStore.object.directory) candidate

/-- The store of a chunk is looked for before the chunk is removed. -/
def deleteManifestChunk (analysis : StorageGcAnalysis) (candidate : Path × Nat) :
    RepositoryM (Bool × CheckPoResult Unit) :=
  match storeOf [.manifestNode, .manifestLeaf] candidate.1 with
  | none => return (false, .error (.corruption
      s!"manifest GC candidate is outside the manifest stores: {displayPath root candidate.1}"))
  | some store => deleteCandidate root uuid refuses fingerprint analysis "GC chunk fingerprint is missing"
      (.ok store.directory) candidate

def deleteInventoryNode (analysis : StorageGcAnalysis) (candidate : Path × Nat) :
    RepositoryM (Bool × CheckPoResult Unit) :=
  deleteCandidate root uuid refuses fingerprint analysis "GC inventory fingerprint is missing"
    (match storeOf [.inventoryState, .inventorySetRoot, .inventorySetLeaf] candidate.1 with
      | some store => .ok store.directory
      | none => .error (.corruption
          s!"inventory GC candidate is outside inventory stores: {displayPath root candidate.1}"))
    candidate

/-- One of the deletion loops, after `before` candidates were deleted by the others: the
first error ends it, and fails the collection while nothing has been deleted. -/
def deleteCandidates (delete : Path × Nat → RepositoryM (Bool × CheckPoResult Unit))
    (before : Nat) :
    List (Path × Nat) → DeletedCandidates →
      RepositoryM (DeletedCandidates × Option (Path × String))
  | [], deleted => return (deleted, none)
  | candidate :: rest, deleted => do
      let (removed, result) ← delete candidate
      let deleted := if removed = true then
        ⟨deleted.count + 1, deleted.bytes + candidate.2⟩ else deleted
      match result with
      | .ok () => deleteCandidates delete before rest deleted
      | .error error =>
          if before + deleted.count = 0 then Durable.lift (.error error)
          else return (deleted, some (candidate.1, error.message))

/-- A loop that starts only when no loop before it has failed. -/
def deleteUnlessFailed (delete : Path × Nat → RepositoryM (Bool × CheckPoResult Unit))
    (before : Nat) (candidates : List (Path × Nat)) (failed : Option (Path × String)) :
    RepositoryM (DeletedCandidates × Option (Path × String)) :=
  match failed with
  | none => deleteCandidates delete before candidates ⟨0, 0⟩
  | some failure => return (⟨0, 0⟩, some failure)

/-- The end of `apply_gc_internal`: the failed candidate and the failure, the one of the
last check of the repository's binding when no loop has failed. -/
def finishCollection (deleted : Nat) (failed : Option (Path × String)) :
    RepositoryM (Option Path × Option String) :=
  match failed with
  | some (path, failure) => return (some path, some failure)
  | none => do
      match ← Durable.inspect fun files => .ok (ask root refuses .openAt [] files) with
      | .ok () => return (none, none)
      | .error error =>
          if deleted = 0 then Durable.lift (.error error)
          else return (none, some error.message)

/-- `apply_gc_internal` from the analysis on. -/
def applyGc (expectedPlanId : String) (analysis : StorageGcAnalysis) :
    RepositoryM StorageGcResult :=
  let plan := analysis.plan
  if expectedPlanId ≠ plan.planId then
    Durable.lift (.error (.workingTreeChanged "storage GC targets changed after preview"))
  else if plan.hasIntegrityProblems = true then
    Durable.lift (.error (.user
      "storage gc cannot apply while missing objects, unsafe storage locations, or unreadable snapshots exist."))
  else do
    Durable.inspect (ask root refuses .openAt [])
    let (blobs, failed) ← deleteUnlessFailed (deleteBlob root uuid refuses fingerprint analysis) 0
      (plan.unreferencedBlobs.map fun blob => (blob.objectPath, blob.sizeBytes)) none
    let (chunks, failed) ← deleteUnlessFailed
      (deleteManifestChunk root uuid refuses fingerprint analysis)
      blobs.count plan.unreferencedManifestChunks failed
    let (nodes, failed) ← deleteUnlessFailed
      (deleteInventoryNode root uuid refuses fingerprint analysis)
      (blobs.count + chunks.count) plan.unreferencedInventoryNodes failed
    let total := plan.unreferencedBlobs.length + plan.unreferencedManifestChunks.length +
      plan.unreferencedInventoryNodes.length
    let deleted := blobs.count + chunks.count + nodes.count
    let (failedCandidate, failure) ← finishCollection root refuses deleted failed
    return {
      plan := truncateGcPlanDetails plan 1000
      applied := true
      completed := failure.isNone
      committedPartially := failure.isSome && decide (0 < deleted)
      deletedBlobCount := blobs.count
      deletedManifestChunkCount := chunks.count
      deletedManifestChunkBytes := chunks.bytes
      deletedInventoryNodeCount := nodes.count
      deletedInventoryNodeBytes := nodes.bytes
      deletedBytes := blobs.bytes + chunks.bytes + nodes.bytes
      failedCandidate := failedCandidate
      failure := failure
      remainingCandidateCount := if failure.isNone = true then 0 else total - deleted }

variable (chrono : Chrono) (tables : UnicodeTables) (blake3 : Bytes → Digest32)

/-- `apply_gc_internal`.  `none` means that the bound on the turns of the marking was too
small. -/
def applyGcInternal (projectId : ProjectId) (turns : Nat) (expectedPlanId : String) :
    RepositoryM (Option StorageGcResult) := do
  match ← Durable.inspect fun files =>
      .ok (analyzeGcForProject blake3 chrono tables fingerprint files root projectId turns) with
  | none => return none
  | some (.error error) => Durable.lift (.error error)
  | some (.ok analysis) => do
      let result ← applyGc root uuid refuses fingerprint expectedPlanId analysis
      return some result

end Run

end CheckPo
