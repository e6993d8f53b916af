/-
Snapshots as they are prepared, stored and loaded: the header becomes a root
chunk, the files a Merkle radix manifest, and each chunk is stored under its
content id.
-/
import CheckPo.ManifestCache

namespace CheckPo

def snapshotSchemaVersionV2 : UInt32 := 2
def maxSnapshotFileBytes : Nat := maxRootBytes

abbrev SnapshotId := Digest32
abbrev ObjectId := Digest32
abbrev ProjectId := { bytes : Bytes // bytes.length = 16 }

theorem length_zeroProject : (List.replicate 16 (0 : UInt8)).length = 16 :=
  List.length_replicate

theorem length_zeroDigest : (List.replicate 32 (0 : UInt8)).length = 32 :=
  List.length_replicate

inductive SnapshotContent where
  | whole (hash : ObjectId) (sizeBytes : UInt64)
deriving DecidableEq

structure SnapshotEntry where
  path : TrackedUnityFilePath
  sizeBytes : UInt64
  modifiedAtUtc : String
  content : SnapshotContent
deriving DecidableEq

def SnapshotEntry.contentHash (entry : SnapshotEntry) : ObjectId :=
  match entry.content with
  | .whole hash _ => hash

def SnapshotEntry.contentSizeBytes (entry : SnapshotEntry) : UInt64 :=
  match entry.content with
  | .whole _ sizeBytes => sizeBytes

structure SnapshotFile where
  schemaVersion : UInt32
  projectId : ProjectId
  parentSnapshotId : Option SnapshotId
  createdAtUtc : String
  name : String
  toolVersion : String
  trackedRoots : List String
  files : List SnapshotEntry
deriving DecidableEq

/-- The `chrono` crate, as far as snapshots use it. -/
structure Chrono where
  /-- `DateTime::parse_from_rfc3339`: the Unix seconds of the instant and its
  nanoseconds. -/
  parseFromRfc3339 : String → Option (Int64 × UInt32)
  /-- `DateTime::<Utc>::from_timestamp` and the RFC 3339 text of the instant with
  nanoseconds and `Z`. -/
  canonicalUtc : Int64 → UInt32 → Option String

/-- `codec_error`. -/
def codecError {α : Type} (result : CodecResult α) : CheckPoResult α :=
  match result with
  | .ok value => .ok value
  | .error error => .error (.corruption error.message)

/-- `snapshot_v2_error`. -/
def snapshotV2Error {α : Type} (result : SnapshotV2Result α) : CheckPoResult α :=
  match result with
  | .ok value => .ok value
  | .error error => .error (.corruption error.message)

@[simp] theorem codecError_eq_ok {α : Type} {result : CodecResult α} {value : α} :
    codecError result = .ok value ↔ result = .ok value := by
  cases result <;> simp [codecError]

@[simp] theorem snapshotV2Error_eq_ok {α : Type} {result : SnapshotV2Result α}
    {value : α} : snapshotV2Error result = .ok value ↔ result = .ok value := by
  cases result <;> simp [snapshotV2Error]

section Snapshot

variable (chrono : Chrono) (tables : UnicodeTables) (blake3 : Bytes → Digest32)

def parseTimestamp (snapshotId : SnapshotId) (field value : String) :
    CheckPoResult Timestamp := do
  let parsed ← orError (chrono.parseFromRfc3339 value)
    (.corruption s!"{snapshotId.toHex}: invalid {field}: {value}")
  codecError (Timestamp.new parsed.1 parsed.2)

def formatTimestamp (snapshotId : SnapshotId) (field : String) (value : Timestamp) :
    CheckPoResult String :=
  orError (chrono.canonicalUtc value.unixSeconds value.nanoseconds)
    (.corruption
      s!"{snapshotId.toHex}: {field} is outside the supported timestamp range")

/-! Validation of a snapshot file. -/

/-- The portable keys of the paths read so far (`BTreeMap`). -/
abbrev PortablePaths := List (Bytes × TrackedUnityFilePath)

def PortablePaths.get (paths : PortablePaths) (key : Bytes) :
    Option TrackedUnityFilePath :=
  (paths.find? fun entry => entry.1 == key).map Prod.snd

def PortablePaths.insert (paths : PortablePaths) (key : Bytes)
    (path : TrackedUnityFilePath) : PortablePaths :=
  (key, path) :: paths.filter fun entry => entry.1 != key

/-- The check of each pair of neighbours; paths are compared as byte strings. -/
def validateFileOrder (snapshotId : SnapshotId) :
    List SnapshotEntry → CheckPoResult Unit
  | left :: right :: rest =>
      if left.path = right.path then
        .error (.corruption s!"{snapshotId.toHex}: snapshot contains duplicate paths")
      else if utf8 right.path.text < utf8 left.path.text then
        .error (.corruption s!"{snapshotId.toHex}: snapshot files are not sorted")
      else validateFileOrder snapshotId (right :: rest)
  | _ => .ok ()

def validateSnapshotEntry (snapshotId : SnapshotId) (paths : PortablePaths)
    (file : SnapshotEntry) : CheckPoResult PortablePaths := do
  let key ← snapshotV2Error (portablePathKeyV1 tables file.path.text)
  let existing := paths.get key
  if existing.any (fun path => path ≠ file.path) = true then
    let text := (existing.map TrackedUnityFilePath.text).getD ""
    .error (.corruption
      s!"{snapshotId.toHex}: snapshot paths collide on a case/Unicode-normalization-insensitive filesystem: {text} and {file.path.text}")
  else
    let _ ← parseTimestamp chrono snapshotId "modifiedAtUtc" file.modifiedAtUtc
    if file.sizeBytes ≠ file.contentSizeBytes then
      .error (.corruption
        s!"{snapshotId.toHex}: size mismatch for {file.path.text}")
    else return paths.insert key file.path

/-- The path stored under a proper slash-ancestor of the key, if any. -/
def PortablePaths.ancestor (paths : PortablePaths) (key : Bytes) :
    Option TrackedUnityFilePath :=
  (List.range key.length).findSome? fun index =>
    if key[index]? = some 47 then paths.get (key.take index) else none

def validateAncestors (snapshotId : SnapshotId) (paths : PortablePaths) :
    CheckPoResult Unit :=
  (paths.mergeSort fun left right => decide (left.1 ≤ right.1)).forM fun entry =>
    match paths.ancestor entry.1 with
    | some existing => .error (.corruption
        s!"{snapshotId.toHex}: snapshot contains a file/directory ancestor conflict: {existing.text} and {entry.2.text}")
    | none => .ok ()

def validateSnapshotFile (snapshotId : SnapshotId) (snapshot : SnapshotFile) :
    CheckPoResult Unit := do
  if snapshot.schemaVersion ≠ snapshotSchemaVersionV2 then
    .error (.unsupportedFormat "snapshot schema" snapshot.schemaVersion.toNat
      snapshotSchemaVersionV2.toNat)
  else
    let _ ← parseTimestamp chrono snapshotId "createdAtUtc" snapshot.createdAtUtc
    if trim snapshot.name = "" ∨ trim snapshot.name ≠ snapshot.name then
      .error (.corruption
        s!"{snapshotId.toHex}: snapshot name is empty or not trimmed")
    else if snapshot.trackedRoots ≠ ["Assets", "Packages", "ProjectSettings"] then
      .error (.corruption
        s!"{snapshotId.toHex}: snapshot tracked roots are invalid")
    else
      validateFileOrder snapshotId snapshot.files
      let paths ← snapshot.files.foldlM
        (validateSnapshotEntry chrono tables snapshotId) []
      validateAncestors snapshotId paths

/-! Preparing a snapshot. -/

/-- `SnapshotId::from_digest_bytes([0; 32])`. -/
def validationId : SnapshotId := ⟨List.replicate 32 0, length_zeroDigest⟩

def snapshotEntryToManifest (entry : SnapshotEntry) : CheckPoResult ManifestEntry := do
  let modified ← parseTimestamp chrono validationId "modifiedAtUtc" entry.modifiedAtUtc
  return ⟨entry.path.text, entry.sizeBytes, modified, entry.contentHash⟩

structure PreparedSnapshot where
  snapshotId : SnapshotId
  rootBytes : Bytes
  manifest : BuiltManifest

def prepareSnapshot (snapshot : SnapshotFile) : CheckPoResult PreparedSnapshot := do
  validateSnapshotFile chrono tables validationId snapshot
  let entries ← snapshot.files.mapM (snapshotEntryToManifest chrono)
  let manifest ← snapshotV2Error (buildManifest blake3 tables entries)
  let created ← parseTimestamp chrono validationId "createdAtUtc" snapshot.createdAtUtc
  let rootBytes ← codecError (encodeRoot ⟨snapshot.projectId, snapshot.parentSnapshotId,
    created, snapshot.name, snapshot.toolVersion, manifest.root, manifest.summary⟩)
  return ⟨rootId blake3 rootBytes, rootBytes, manifest⟩

/-! The repository's content-addressed files. -/

structure SnapshotRepository where
  /-- The display path of the repository. -/
  path : String
  roots : SnapshotId → Option Bytes
  nodes : Digest32 → Option Bytes
  leaves : Digest32 → Option Bytes

namespace SnapshotRepository

def snapshotPath (repository : SnapshotRepository) (id : SnapshotId) : String :=
  s!"{repository.path}/snapshots/v2/{id.toHex.take 2}/{(id.toHex.drop 2).take 2}/{id.toHex}.root"

def manifestNodePath (repository : SnapshotRepository) (id : Digest32) : String :=
  s!"{repository.path}/manifests/v2/nodes/{id.toHex.take 2}/{id.toHex}"

def manifestLeafPath (repository : SnapshotRepository) (id : Digest32) : String :=
  s!"{repository.path}/manifests/v2/leaves/{id.toHex.take 2}/{id.toHex}"

/-- `read_bytes_bounded_path` on the content of a file. -/
def readBytesBounded (path : String) (content : Option Bytes) (maxBytes : Nat) :
    CheckPoResult Bytes :=
  match content with
  | none => .error (.notFound path)
  | some bytes =>
      if maxBytes < bytes.length then
        .error (.corruption
          s!"anchored file exceeds maximum size of {maxBytes} bytes: {path}")
      else .ok bytes

/-- `core_to_v2_error`. -/
def coreToV2Error {α : Type} (result : CheckPoResult α) : SnapshotV2Result α :=
  match result with
  | .ok value => .ok value
  | .error error => .error (.source error.message)

/-- The repository as a chunk source. -/
def loadManifestChunk (repository : SnapshotRepository) : ManifestChunkSource :=
  fun reference => coreToV2Error (match reference.kind with
    | .node => readBytesBounded (repository.manifestNodePath reference.id)
        (repository.nodes reference.id) maxManifestChunkBytes
    | .leaf => readBytesBounded (repository.manifestLeafPath reference.id)
        (repository.leaves reference.id) maxManifestChunkBytes
    | .root => .error (.corruption
        "root cannot be loaded from the manifest chunk store"))

/-- Content-addressed bytes are published under their id, whatever was there: equal
bytes stay and others are repaired. -/
def storeManifestChunk (repository : SnapshotRepository) (reference : ManifestRef)
    (bytes : Bytes) : CheckPoResult SnapshotRepository := do
  let actual ← codecError (manifestId blake3 reference.kind bytes)
  if actual ≠ reference.id then
    .error (.corruption
      s!"prepared manifest chunk digest mismatch: expected {reference.id.toHex}, found {actual.toHex}")
  else match reference.kind with
    | .node => return { repository with
        nodes := Function.update repository.nodes reference.id (some bytes) }
    | .leaf => return { repository with
        leaves := Function.update repository.leaves reference.id (some bytes) }
    | .root => .error (.corruption
        "root cannot be loaded from the manifest chunk store")

def storeBuiltManifest (repository : SnapshotRepository) (manifest : BuiltManifest) :
    CheckPoResult SnapshotRepository :=
  manifest.chunks.foldlM (fun repository chunk =>
    storeManifestChunk blake3 repository chunk.1 chunk.2) repository

def publishSnapshotRoot (repository : SnapshotRepository) (snapshotId : SnapshotId)
    (bytes : Bytes) : CheckPoResult SnapshotRepository :=
  let actual := rootId blake3 bytes
  if actual ≠ snapshotId then
    .error (.corruption
      s!"prepared snapshot root digest mismatch: expected {snapshotId.toHex}, found {actual.toHex}")
  else .ok { repository with
    roots := Function.update repository.roots snapshotId (some bytes) }

/-- The chunks are stored before the root that refers to them. -/
def storePreparedSnapshot (repository : SnapshotRepository) (prepared : PreparedSnapshot) :
    CheckPoResult SnapshotRepository := do
  let repository ← storeBuiltManifest blake3 repository prepared.manifest
  publishSnapshotRoot blake3 repository prepared.snapshotId prepared.rootBytes

def readSnapshotBytes (repository : SnapshotRepository) (snapshotId : SnapshotId) :
    CheckPoResult Bytes :=
  match readBytesBounded (repository.snapshotPath snapshotId)
      (repository.roots snapshotId) maxSnapshotFileBytes with
  | .error (.notFound _) => .error (.snapshotNotFound snapshotId.toHex)
  | result => result

end SnapshotRepository

/-! Loading a snapshot. -/

structure SnapshotRootHeader where
  projectId : ProjectId
  parentSnapshotId : Option SnapshotId
  createdAtUtc : String
  name : String
  toolVersion : String
  manifest : Option ManifestRef
  summary : ManifestSummary

def decodeSnapshotRootHeader (snapshotId : SnapshotId) (bytes : Bytes) :
    CheckPoResult SnapshotRootHeader := do
  codecError (verifyRootId blake3 snapshotId bytes)
  let root ← codecError (decodeRoot bytes)
  let encoded ← codecError (encodeRoot root)
  if encoded ≠ bytes then
    .error (.corruption
      s!"{snapshotId.toHex}: snapshot root is not canonically encoded")
  else
    let createdAtUtc ← formatTimestamp chrono snapshotId "createdAtUtc" root.created
    return ⟨root.projectId, root.parent, createdAtUtc, root.checkpointName,
      root.toolVersion, root.manifest, root.summary⟩

def manifestEntryToSnapshot (snapshotId : SnapshotId) (entry : ManifestEntry) :
    CheckPoResult SnapshotEntry := do
  let path ← TrackedUnityFilePath.parse entry.exactPath
  let modifiedAtUtc ← formatTimestamp chrono snapshotId "modifiedAtUtc" entry.modified
  return ⟨path, entry.sizeBytes, modifiedAtUtc, .whole entry.objectId entry.sizeBytes⟩

/-- The entries of an iterator, each converted as it comes, up to the first error;
the bounds are those of `ManifestIter.collect`. -/
def ManifestIter.collectSnapshot (source : ManifestChunkSource) (snapshotId : SnapshotId)
    (turns : Nat) : Nat → ManifestIter → Option (CheckPoResult (List SnapshotEntry))
  | 0, _ => none
  | items + 1, iter =>
      match iter.next blake3 source turns with
      | none => none
      | some (none, _) => some (.ok [])
      | some (some (.error error), _) => some (snapshotV2Error (.error error))
      | some (some (.ok entry), next) =>
          match manifestEntryToSnapshot chrono snapshotId entry with
          | .error error => some (.error error)
          | .ok file =>
              match ManifestIter.collectSnapshot source snapshotId turns items next with
              | some (.ok files) => some (.ok (file :: files))
              | other => other

def sortByPath (files : List SnapshotEntry) : List SnapshotEntry :=
  files.mergeSort fun left right => decide (utf8 left.path.text ≤ utf8 right.path.text)

/-- `none` means that a bound on the iteration was too small. -/
def decodeSnapshotRootBytes (repository : SnapshotRepository) (snapshotId : SnapshotId)
    (bytes : Bytes) (turns items : Nat) : Option (CheckPoResult SnapshotFile) :=
  match decodeSnapshotRootHeader chrono blake3 snapshotId bytes with
  | .error error => some (.error error)
  | .ok root =>
      let source := repository.loadManifestChunk
      match snapshotV2Error
          (validateManifestCached blake3 tables source root.manifest root.summary .empty).1 with
      | .error error => some (.error error)
      | .ok () =>
          ((manifestIter root.manifest).collectSnapshot chrono blake3 source snapshotId
              turns items).map fun result => do
            let snapshot : SnapshotFile := ⟨snapshotSchemaVersionV2, root.projectId,
              root.parentSnapshotId, root.createdAtUtc, root.name, root.toolVersion,
              ["Assets", "Packages", "ProjectSettings"], sortByPath (← result)⟩
            validateSnapshotFile chrono tables snapshotId snapshot
            return snapshot

def loadSnapshot (repository : SnapshotRepository) (snapshotId : SnapshotId)
    (turns items : Nat) : Option (CheckPoResult SnapshotFile) :=
  match repository.readSnapshotBytes snapshotId with
  | .error error => some (.error error)
  | .ok bytes =>
      decodeSnapshotRootBytes chrono tables blake3 repository snapshotId bytes turns items

end Snapshot

end CheckPo
