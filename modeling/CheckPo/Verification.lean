/-
The verification of a project: every snapshot below `snapshots/v2` is read and its
manifest walked, and every object that an entry names is checked.  A checkpoint is
verified by loading its snapshot.
-/
import CheckPo.SnapshotRoots
import CheckPo.ManifestWalk

namespace CheckPo

def maxVerificationErrors : Nat := 1024

structure VerificationResult where
  isValid : Bool
  errors : List String
  warnings : List String
deriving DecidableEq

def pushVerificationError (errors : List String) (error : String) : List String :=
  if errors.length < maxVerificationErrors then errors ++ [error]
  else if errors.length = maxVerificationErrors then
    errors ++ [s!"verification stopped collecting detailed errors after {maxVerificationErrors} entries"]
  else errors

/-- What an error of a step adds to the errors. -/
def pushFailure {α : Type} (errors : List String) (result : CheckPoResult α) : List String :=
  match result with
  | .ok _ => errors
  | .error error => pushVerificationError errors error.message

/-! The configuration of the repository. -/

structure RepositoryConfig where
  schemaVersion : UInt32
  repoFormatVersion : UInt32
  projectId : ProjectId
  hashAlgorithm : String
  snapshotFormat : String
  objectFormat : String
  manifestChunkFormat : String
  manifestStorageFormat : String
  pathKeyPolicy : String
deriving DecidableEq

/-- `serde_json`, as far as `repo.json` is read with it. -/
structure ConfigJson where
  /-- The `RepositoryConfigEnvelope` in the bytes. -/
  envelope : Bytes → Option (UInt32 × Option UInt32)
  config : Bytes → Option RepositoryConfig

def repoFormatVersion : UInt32 := 5
def repositoryConfigSchemaVersion : UInt32 := 2

def defaultRepositoryConfig (projectId : ProjectId) : RepositoryConfig where
  schemaVersion := repositoryConfigSchemaVersion
  repoFormatVersion := repoFormatVersion
  projectId := projectId
  hashAlgorithm := "blake3"
  snapshotFormat := "merkle-radix-bin-v2"
  objectFormat := "loose-whole-file-one-level-v2"
  manifestChunkFormat := "merkle-radix-bin-v2"
  manifestStorageFormat := "loose-content-addressed-one-level-v2"
  pathKeyPolicy := "unicode-16.0-nfc-lowercase-v1"

def validateRepositoryVersions (schemaVersion formatVersion : UInt32) : CheckPoResult Unit :=
  if schemaVersion ≠ repositoryConfigSchemaVersion then
    .error (.unsupportedFormat "repository config schema" schemaVersion.toNat
      repositoryConfigSchemaVersion.toNat)
  else if formatVersion ≠ repoFormatVersion then
    .error (.unsupportedFormat "repository format" formatVersion.toNat repoFormatVersion.toNat)
  else .ok ()

def validateRepositoryConfig (config : RepositoryConfig) (projectId : ProjectId) :
    CheckPoResult Unit := do
  validateRepositoryVersions config.schemaVersion config.repoFormatVersion
  if config ≠ defaultRepositoryConfig projectId then
    .error (.corruption "repo.json does not match CheckPo repository format v5")
  else return ()

namespace RepositoryFiles

/-- A format that the envelope leaves out is not compared with the supported one. -/
def loadRepoConfig (json : ConfigJson) (files : RepositoryFiles) (root : String)
    (projectId : ProjectId) : CheckPoResult RepositoryConfig := do
  let path := displayPath root ["repo.json"]
  files.ensureRegularDirectoryNoFollow root []
  let bytes ← SnapshotRepository.readBytesBounded path (files.file ["repo.json"]) (1024 * 1024)
  let envelope ← orError (json.envelope bytes) (.json path "invalid repository config")
  validateRepositoryVersions envelope.1 (envelope.2.getD repoFormatVersion)
  let config ← orError (json.config bytes) (.json path "invalid repository config")
  validateRepositoryConfig config projectId
  return config

/-- The warnings about entries that are no snapshot roots. -/
def warnInvalidSnapshotRootEntries (files : RepositoryFiles) (root : String) : List String :=
  if files.entry snapshotsDir = none then []
  else (files.walk snapshotsDir).filterMap fun path =>
    if files.entry path = some .directory then none
    else
      let valid := match path.drop snapshotsDir.length with
        | [first, second, name] =>
            match stripSuffix ".root" name with
            | none => false
            | some stem => match parseLowerHexId "snapshot" stem with
                | .ok id => first == hexByte id.firstByte && second == hexByte (byteAt id.bytes 1)
                | .error _ => false
        | _ => false
      if valid then none
      else some s!"ignored invalid snapshot root entry: {displayPath root path}"

def readLatestSnapshotId (files : RepositoryFiles) (root : String) :
    CheckPoResult (Option SnapshotId) :=
  match SnapshotRepository.readBytesBounded (displayPath root ["refs", "latest"])
      (files.file ["refs", "latest"]) 128 with
  | .error (.notFound _) => .ok none
  | .error error => .error error
  | .ok bytes => do
      let text ← orError (fromUtf8 bytes) (.corruption "refs/latest is not valid UTF-8")
      return some (← parseLowerHexId "snapshot" (trim text))

end RepositoryFiles

/-! What the snapshots refer to. -/

namespace Verification

structure ReferencedObject where
  expectedSizeBytes : UInt64
  firstSnapshotId : SnapshotId
  firstPath : TrackedUnityFilePath

/-- `referenced_objects`, which keeps the first value of a key, and the errors so far. -/
structure Marks where
  objects : List (ObjectId × ReferencedObject)
  errors : List String

def Marks.object (marks : Marks) (id : ObjectId) : Option ReferencedObject :=
  (marks.objects.find? fun entry => entry.1 == id).map Prod.snd

def Marks.push (marks : Marks) (error : String) : Marks :=
  { marks with errors := pushVerificationError marks.errors error }

def collectEntry (snapshotId : SnapshotId) (marks : Marks) (entry : LeafEntry) :
    CheckPoResult Marks := do
  let path ← TrackedUnityFilePath.parse entry.exactPath
  match marks.object entry.objectId with
  | none => return { marks with objects := marks.objects ++
      [(entry.objectId, ⟨entry.sizeBytes, snapshotId, path⟩)] }
  | some known =>
      if known.expectedSizeBytes ≠ entry.sizeBytes then
        return marks.push
          s!"{snapshotId.toHex}: object {entry.objectId.toHex} has conflicting expected sizes: {known.expectedSizeBytes} in snapshot {known.firstSnapshotId.toHex}, {entry.sizeBytes} for {path.text}"
      else return marks

abbrev Walk := ChunkWalk Marks

def Walk.push (walk : Walk) (error : String) : Walk :=
  { walk with marks := walk.marks.push error }

section Hash

variable (chrono : Chrono) (tables : UnicodeTables) (blake3 : Bytes → Digest32)

/-- With the cache and the walk afterwards. -/
def collectSnapshotReferences (repository : SnapshotRepository) (projectId : ProjectId)
    (turns : Nat) (snapshotId : SnapshotId) (cache : ManifestValidationCache) (walk : Walk) :
    Option (ManifestValidationCache × Walk × CheckPoResult Unit) :=
  match repository.loadSnapshotRootHeader chrono blake3 snapshotId with
  | .error error => some (cache, walk, .error error)
  | .ok root =>
      let source := repository.loadManifestChunk
      match validateManifestCached blake3 tables source root.manifest root.summary cache with
      | (.error error, cache) =>
          some (cache, walk, .error (.corruption s!"{snapshotId.toHex}: {error.message}"))
      | (.ok (), cache) =>
          let walk := if root.projectId ≠ projectId then
            walk.push s!"{snapshotId.toHex}: snapshot project id does not match current project"
            else walk
          (walkChunks (loadChunk blake3 source) snapshotId (collectEntry snapshotId) turns
            root.manifest.toList walk).map fun result => (cache, result)

/-- The loop over the snapshots. -/
def collectReferences (repository : SnapshotRepository) (projectId : ProjectId) (turns : Nat) :
    List SnapshotId → ManifestValidationCache → Walk → Option Walk
  | [], _, walk => some walk
  | snapshotId :: rest, cache, walk =>
      match collectSnapshotReferences chrono tables blake3 repository projectId turns snapshotId
          cache walk with
      | none => none
      | some (cache, walk, result) =>
          collectReferences repository projectId turns rest (resetValidationCache cache)
            (match result with
              | .ok () => walk
              | .error error => walk.push error.message)

/-! The objects. -/

def verifyObject (files : RepositoryFiles) (root : String) (expected : ObjectId)
    (sizeBytes : UInt64) (full : Bool) : CheckPoResult Unit :=
  let path := displayPath root (objectPath expected)
  match files.entry (objectPath expected) with
  | none => .error (.notFound path)
  | some (.file content) =>
      if content.length ≠ sizeBytes.toNat then
        .error (.objectHashMismatch
          s!"{path} size expected {sizeBytes}, got {content.length}")
      else if full = true ∧ blake3 content ≠ expected then
        .error (.objectHashMismatch
          s!"{path} expected {expected.toHex}, got {(blake3 content).toHex}")
      else .ok ()
  | some _ => .error (.corruption s!"unsafe regular file path: {path}")

def verifyReferencedObject (files : RepositoryFiles) (root : String) (full : Bool)
    (errors : List String) (object : ObjectId × ReferencedObject) : List String :=
  match verifyObject blake3 files root object.1 object.2.expectedSizeBytes full with
  | .ok () => errors
  | .error error => pushVerificationError errors
      s!"{object.2.firstSnapshotId.toHex}: object {object.1.toHex} for {object.2.firstPath.text}: {error.message}"

/-- The objects in the order of their ids. -/
def verifyReferencedObjects (files : RepositoryFiles) (root : String) (full : Bool)
    (marks : Marks) : List String :=
  (marks.objects.mergeSort fun left right => decide (left.1 ≤ right.1)).foldl
    (verifyReferencedObject blake3 files root full) marks.errors

/-- The check of `refs/latest`. -/
def verifyLatest (files : RepositoryFiles) (root : String) (errors : List String) :
    List String :=
  match files.readLatestSnapshotId root with
  | .error error => pushVerificationError errors error.message
  | .ok none => errors
  | .ok (some latest) =>
      match (files.snapshotRepository root).loadSnapshotRootHeader chrono blake3 latest with
      | .ok _ => errors
      | .error error => pushVerificationError errors
          s!"refs/latest points to invalid snapshot {latest.toHex}: {error.message}"

/-! The checkpoints. -/

def loadProjectSnapshot (repository : SnapshotRepository) (projectId : ProjectId)
    (snapshotId : SnapshotId) (turns items : Nat) : Option (CheckPoResult SnapshotFile) :=
  (loadSnapshot chrono tables blake3 repository snapshotId turns items).map fun result => do
    let snapshot ← result
    if snapshot.projectId ≠ projectId then
      .error (.corruption
        s!"{snapshotId.toHex}: snapshot project id does not match current project")
    else return snapshot

/-- The objects of a snapshot that were verified, with the sizes expected of them. -/
structure VerifiedObjects where
  objects : List (ObjectId × UInt64)
  errors : List String

def verifySnapshotFile (files : RepositoryFiles) (root : String) (snapshotId : SnapshotId)
    (full : Bool) (state : VerifiedObjects) (file : SnapshotEntry) : VerifiedObjects :=
  let errors := pushFailure state.errors (TrackedUnityFilePath.parse file.path.text)
  let errors := pushFailure errors (parseLowerHexId "object" file.contentHash.toHex)
  match (state.objects.find? fun object => object.1 == file.contentHash).map Prod.snd with
  | some expected => { state with
      errors := if expected ≠ file.sizeBytes then pushVerificationError errors
        s!"{snapshotId.toHex}: object {file.contentHash.toHex} has conflicting expected sizes: {expected} in snapshot {snapshotId.toHex}, {file.sizeBytes} for {file.path.text}"
        else errors }
  | none =>
      { objects := state.objects ++ [(file.contentHash, file.sizeBytes)]
        errors := match verifyObject blake3 files root file.contentHash file.sizeBytes full with
          | .ok () => errors
          | .error error => pushVerificationError errors
              s!"{snapshotId.toHex}: object {file.contentHash.toHex} for {file.path.text}: {error.message}" }

end Hash

end Verification

open Verification

section Hash

variable (chrono : Chrono) (tables : UnicodeTables) (blake3 : Bytes → Digest32)

/-- `none` means that a bound on a loop was too small. -/
def verifyProject (json : ConfigJson) (files : RepositoryFiles) (root : String)
    (projectId : ProjectId) (full : Bool) (turns : Nat) :
    Option (CheckPoResult VerificationResult) :=
  let errors := pushFailure [] (files.loadRepoConfig json root projectId)
  let warnings := files.warnInvalidSnapshotRootEntries root
  let errors := if full = true then
    pushFailure errors (files.validatePhysicalSnapshotInventory blake3 root projectId)
    else errors
  match files.listSnapshotIds root with
  | .error error => some (.error error)
  | .ok ids =>
      (collectReferences chrono tables blake3 (files.snapshotRepository root) projectId turns
        (ids.sort (· ≤ ·)) .empty ⟨∅, ⟨[], errors⟩⟩).map fun walk =>
          let errors := verifyLatest chrono blake3 files root
            (verifyReferencedObjects blake3 files root full walk.marks)
          .ok ⟨errors.isEmpty, errors, warnings⟩

def verifyCheckpoint (files : RepositoryFiles) (root : String) (projectId : ProjectId)
    (snapshotId : SnapshotId) (full : Bool) (turns items : Nat) : Option VerificationResult :=
  (loadProjectSnapshot chrono tables blake3 (files.snapshotRepository root) projectId snapshotId
    turns items).map fun result =>
      let errors := match result with
        | .error error => pushVerificationError [] error.message
        | .ok snapshot => (snapshot.files.foldl
            (verifySnapshotFile blake3 files root snapshotId full) ⟨[], []⟩).errors
      ⟨errors.isEmpty, errors, []⟩

end Hash

end CheckPo
