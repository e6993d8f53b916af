/-
The files of a repository: where each kind of content-addressed file stands, and what
the snapshot store and the inventory read there.
-/
import CheckPo.FileTree
import CheckPo.InventoryStore

namespace CheckPo

/-- A repository directory, its content-addressed files and everything else in it. -/
abbrev RepositoryFiles := FileTree Bytes

/-- The stores that shard their files by the first byte of the id. -/
inductive ContentStore where
  | object
  | manifestNode
  | manifestLeaf
  | inventoryState
  | inventorySetRoot
  | inventorySetLeaf
deriving DecidableEq

namespace ContentStore

def directory : ContentStore → Path
  | .object => ["objects", "loose"]
  | .manifestNode => ["manifests", "v2", "nodes"]
  | .manifestLeaf => ["manifests", "v2", "leaves"]
  | .inventoryState => ["inventory", "snapshots", "states"]
  | .inventorySetRoot => ["inventory", "snapshots", "sets", "roots"]
  | .inventorySetLeaf => ["inventory", "snapshots", "sets", "leaves"]

def suffix : ContentStore → String
  | .object | .manifestNode | .manifestLeaf => ""
  | .inventoryState => ".state"
  | .inventorySetRoot => ".root"
  | .inventorySetLeaf => ".leaf"

/-- The directory of the files whose ids have a first byte. -/
def shardPath (store : ContentStore) (first : UInt8) : Path := store.directory ++ [hexByte first]

/-- The place of a file: `&id[0..2]` and the whole id. -/
def filePath (store : ContentStore) (id : Digest32) : Path :=
  store.shardPath id.firstByte ++ [id.toHex ++ store.suffix]

end ContentStore

def objectPath (id : ObjectId) : Path := ContentStore.object.filePath id
def manifestNodePath (id : Digest32) : Path := ContentStore.manifestNode.filePath id
def manifestLeafPath (id : Digest32) : Path := ContentStore.manifestLeaf.filePath id
def inventoryStatePath (id : ObjectId) : Path := ContentStore.inventoryState.filePath id
def inventorySetRootPath (id : ObjectId) : Path := ContentStore.inventorySetRoot.filePath id
def inventorySetLeafPath (id : ObjectId) : Path := ContentStore.inventorySetLeaf.filePath id

def inventoryHeadPath : Path := ["inventory", "snapshots", "head"]

def snapshotsDir : Path := ["snapshots", "v2"]

/-- Snapshot roots have two levels of shards. -/
def snapshotPath (id : SnapshotId) : Path :=
  snapshotsDir ++ [hexByte id.firstByte, hexByte (byteAt id.bytes 1), id.toHex ++ ".root"]

namespace RepositoryFiles

/-- What the snapshot store reads; `root` is the display path of the repository. -/
def snapshotRepository (files : RepositoryFiles) (root : String) : SnapshotRepository where
  path := root
  roots id := files.file (snapshotPath id)
  nodes id := files.file (manifestNodePath id)
  leaves id := files.file (manifestLeafPath id)

/-- What the inventory reads. -/
def inventoryStore (files : RepositoryFiles) (root : String) : InventoryStore where
  path := root
  head := files.file inventoryHeadPath
  states id := files.file (inventoryStatePath id)
  setRoots id := files.file (inventorySetRootPath id)
  setLeaves id := files.file (inventorySetLeafPath id)

end RepositoryFiles

/-! The places of different files are apart. -/

theorem hexByte_injective {left right : UInt8} (h : hexByte left = hexByte right) :
    left = right := by
  have hleft : decodeLowerHex (hexByte left).toList = some [left] := by
    rw [hexByte, String.toList_ofList]
    exact decodeLowerHex_hexDigits [left]
  have hright : decodeLowerHex (hexByte right).toList = some [right] := by
    rw [hexByte, String.toList_ofList]
    exact decodeLowerHex_hexDigits [right]
  rw [h, hright] at hleft
  exact (List.singleton_inj.mp (Option.some.inj hleft)).symm

namespace ContentStore

/-- No store lies in another one. -/
theorem directory_start {left right : ContentStore} {leftRest rightRest : Path}
    (h : left.directory ++ leftRest <+: right.directory ++ rightRest) : left = right := by
  cases left <;> cases right <;> simp [directory] at h ⊢

theorem shardPath_start {left right : ContentStore} {leftByte rightByte : UInt8} {rest : Path}
    (h : left.shardPath leftByte <+: right.shardPath rightByte ++ rest) :
    left = right ∧ leftByte = rightByte := by
  rw [shardPath, shardPath, List.append_assoc] at h
  obtain rfl := directory_start h
  rw [List.prefix_append_right_inj, List.singleton_append, List.cons_prefix_cons] at h
  exact ⟨rfl, hexByte_injective h.1⟩

theorem filePath_start {left right : ContentStore} {leftId rightId : Digest32}
    (h : left.filePath leftId <+: right.filePath rightId) : left = right ∧ leftId = rightId := by
  obtain ⟨rfl, hbyte⟩ := shardPath_start ((List.prefix_append _ _).trans h)
  rw [filePath, filePath, hbyte, List.prefix_append_right_inj, List.cons_prefix_cons] at h
  exact ⟨rfl, toHex_injective ((String.append_left_inj _).mp h.1)⟩

theorem filePath_eq {left right : ContentStore} {leftId rightId : Digest32}
    (h : left.filePath leftId = right.filePath rightId) : left = right ∧ leftId = rightId := by
  have hstarts : left.filePath leftId <+: right.filePath rightId := by rw [h]
  exact filePath_start hstarts

theorem filePath_injective {store : ContentStore} {left right : Digest32}
    (h : store.filePath left = store.filePath right) : left = right :=
  (filePath_eq h).2

end ContentStore

/-- `AnchoredRoot::read_bytes_bounded_path`. -/
def readBytesBounded (path : String) (maxBytes : Nat) (bytes : Bytes) : CheckPoResult Bytes :=
  if maxBytes < bytes.length then
    .error (.corruption s!"anchored file exceeds maximum size of {maxBytes} bytes: {path}")
  else .ok bytes

end CheckPo
