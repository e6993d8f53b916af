/-
The snapshot roots that stand below `snapshots/v2`: how they are listed, and that they
are those of the inventory.
-/
import CheckPo.RepositoryFiles

namespace CheckPo

/-! Names of files. -/

def isLowerHex (value : String) (length : Nat) : Bool :=
  value.toList.length == length && value.toList.all fun digit => (hexNibble digit).isSome

/-- `parse_lower_hex_digest` decodes as an id is parsed. -/
def parseLowerHexDigest (value : String) : Option Digest32 :=
  (parseLowerHexId "digest" value).toOption

namespace RepositoryFiles

/-! The physical snapshot roots. -/

def ensureRegularDirectoryNoFollow (files : RepositoryFiles) (root : String) (path : Path) :
    CheckPoResult Unit :=
  match files.entry path with
  | none => .error (.notFound (displayPath root path))
  | some .directory => .ok ()
  | some _ => .error (.corruption s!"unsafe directory path: {displayPath root path}")

def validateSnapshotShardDirectory (files : RepositoryFiles) (root : String) (path : Path)
    (name : String) (shardIndex : Nat) : CheckPoResult Unit :=
  if files.entry path = some .directory ∧ isLowerHex name 2 = true then .ok ()
  else .error (.corruption
    s!"invalid level {shardIndex + 1} snapshot shard directory: {displayPath root path}")

def validateSnapshotRootFile (files : RepositoryFiles) (root : String) (path : Path)
    (name : String) : CheckPoResult Unit :=
  match files.entry path with
  | some (.file _) =>
      match stripSuffix ".root" name with
      | none => .error (.corruption s!"invalid snapshot root filename: {displayPath root path}")
      | some idText =>
          match parseLowerHexId "snapshot" idText with
          | .error _ =>
              .error (.corruption s!"invalid snapshot root filename: {displayPath root path}")
          | .ok id =>
              if snapshotPath id ≠ path then
                .error (.corruption
                  s!"snapshot root is stored outside its canonical shard path: {displayPath root path}")
              else .ok ()
  | _ => .error (.corruption
      s!"snapshot root entry is not a regular no-follow file: {displayPath root path}")

def validateSnapshotRootInventory (files : RepositoryFiles) (root : String) :
    CheckPoResult Unit :=
  match files.entry snapshotsDir with
  | none => .error (.notFound (displayPath root snapshotsDir))
  | some .directory =>
      (files.walk snapshotsDir).forM fun path =>
        match path.drop snapshotsDir.length with
        | [first] => files.validateSnapshotShardDirectory root path first 0
        | [_, second] => files.validateSnapshotShardDirectory root path second 1
        | [_, _, name] => files.validateSnapshotRootFile root path name
        | _ => .ok ()
  | some _ => .error (.corruption
      s!"snapshot root directory is unsafe: {displayPath root snapshotsDir}")

/-- The id of a snapshot root, where the path is one. -/
def snapshotRootId (files : RepositoryFiles) (path : Path) (first second name : String) :
    Option SnapshotId := do
  let _ ← files.file path
  let stem ← stripSuffix ".root" name
  let id ← (parseLowerHexId "snapshot" stem).toOption
  if hexByte id.firstByte = first ∧ hexByte (byteAt id.bytes 1) = second then some id else none

/-- One entry below `snapshots/v2`, as `list_snapshot_ids` meets it. -/
def listSnapshotEntry (files : RepositoryFiles) (root : String) (ids : Finset SnapshotId)
    (path : Path) : CheckPoResult (Finset SnapshotId) :=
  match path.drop snapshotsDir.length with
  | [first] =>
      if isLowerHex first 2 = false then .ok ids
      else (files.ensureRegularDirectoryNoFollow root path).map fun _ => ids
  | [first, second] =>
      if isLowerHex first 2 = false ∨ isLowerHex second 2 = false then .ok ids
      else (files.ensureRegularDirectoryNoFollow root path).map fun _ => ids
  | [first, second, name] =>
      if isLowerHex first 2 = false ∨ isLowerHex second 2 = false then .ok ids
      else if files.entry path = some .link then
        .error (.corruption
          s!"snapshot root entry is a link or reparse point: {displayPath root path}")
      else .ok ((files.snapshotRootId path first second name).elim ids (insert · ids))
  | _ => .ok ids

def listSnapshotIds (files : RepositoryFiles) (root : String) :
    CheckPoResult (Finset SnapshotId) :=
  match files.entry snapshotsDir with
  | none => .ok ∅
  | some .directory => (files.walk snapshotsDir).foldlM (files.listSnapshotEntry root) ∅
  | some _ => .error (.corruption
      s!"snapshot root directory is unsafe: {displayPath root snapshotsDir}")

theorem isLowerHex_hexByte (byte : UInt8) : isLowerHex (hexByte byte) 2 = true := by
  have hhigh : byte.toNat / 16 < 16 := by
    have := UInt8.toNat_lt byte
    omega
  have hlow : byte.toNat % 16 < 16 := Nat.mod_lt _ (by decide)
  simp [isLowerHex, hexByte, hexNibble_lowerHexDigit hhigh, hexNibble_lowerHexDigit hlow]

section Listing

variable {files : RepositoryFiles} {root : String} {ids : Finset SnapshotId}

theorem listSnapshotEntry_first {first : UInt8}
    (h : files.entry (snapshotsDir ++ [hexByte first]) = some .directory) :
    files.listSnapshotEntry root ids (snapshotsDir ++ [hexByte first]) = .ok ids := by
  rw [listSnapshotEntry, List.drop_left]
  simp only [isLowerHex_hexByte, ensureRegularDirectoryNoFollow, h]
  rfl

theorem listSnapshotEntry_second {first second : UInt8}
    (h : files.entry (snapshotsDir ++ [hexByte first, hexByte second]) = some .directory) :
    files.listSnapshotEntry root ids (snapshotsDir ++ [hexByte first, hexByte second]) =
      .ok ids := by
  rw [listSnapshotEntry, List.drop_left]
  simp only [isLowerHex_hexByte, ensureRegularDirectoryNoFollow, h]
  rfl

theorem listSnapshotEntry_root {id : SnapshotId} {content : Bytes}
    (h : files.file (snapshotPath id) = some content) :
    files.listSnapshotEntry root ids (snapshotPath id) = .ok (insert id ids) := by
  have hlink : files.entry (snapshotPath id) ≠ some .link := by
    rw [FileTree.file_eq_some.mp h]
    exact nofun
  have hid : files.snapshotRootId (snapshotPath id) (hexByte id.firstByte)
      (hexByte (byteAt id.bytes 1)) (id.toHex ++ ".root") = some id := by
    simp [snapshotRootId, h, stripSuffix_append, parseLowerHexId_toHex, Except.toOption]
  rw [listSnapshotEntry, show (snapshotPath id).drop snapshotsDir.length =
    [hexByte id.firstByte, hexByte (byteAt id.bytes 1), id.toHex ++ ".root"] from List.drop_left]
  simp only [isLowerHex_hexByte, if_neg hlink, hid, Option.elim_some]
  rfl

end Listing

/-- Where every entry is listed without an error, the ids of the entries are listed. -/
theorem listSnapshotIds_eq {files : RepositoryFiles} {root : String}
    (hdirectory : files.entry snapshotsDir = some .directory) (listed : Path → Finset SnapshotId)
    (h : ∀ path ∈ files.below snapshotsDir, ∀ ids,
      files.listSnapshotEntry root ids path = .ok (ids ∪ listed path)) :
    files.listSnapshotIds root = .ok ((files.below snapshotsDir).biUnion listed) := by
  have hfold : ∀ (paths : List Path) (ids : Finset SnapshotId),
      (∀ path ∈ paths, path ∈ files.below snapshotsDir) →
      paths.foldlM (files.listSnapshotEntry root) ids =
        .ok (ids ∪ paths.toFinset.biUnion listed) := by
    intro paths
    induction paths with
    | nil => simp [pure, Except.pure]
    | cons path rest ih =>
        intro ids hpaths
        rw [List.forall_mem_cons] at hpaths
        rw [List.foldlM_cons, h path hpaths.1, except_bind_ok, ih _ hpaths.2, List.toFinset_cons,
          Finset.biUnion_insert, Finset.union_assoc]
  rw [listSnapshotIds, hdirectory]
  refine (hfold _ ∅ fun path hpath => FileTree.mem_walk.mp hpath).trans ?_
  rw [FileTree.walk, Finset.sort_toFinset, Finset.empty_union]

def idTexts (ids : Finset SnapshotId) : String :=
  ", ".intercalate ((((ids.sort (· ≤ ·)).take 8)).map Digest32.toHex)

section Hash

variable (blake3 : Bytes → Digest32)

def validatePhysicalSnapshotInventory (files : RepositoryFiles) (root : String)
    (projectId : ProjectId) : CheckPoResult (List SnapshotId) := do
  let store := files.inventoryStore root
  let head ← store.inventoryHead blake3 projectId
  let inventoryIds ← store.loadInventoryIds blake3 projectId head.state
  let physical ← files.listSnapshotIds root
  if inventoryIds ≠ physical then
    let missing := idTexts (inventoryIds \ physical)
    let unexpected := idTexts (physical \ inventoryIds)
    .error (.corruption
      s!"snapshot inventory does not match physical roots (missing: [{missing}], unexpected: [{unexpected}])")
  else
    let again ← store.inventoryHead blake3 projectId
    if again.id ≠ head.id then
      .error (.corruption
        "snapshot inventory changed while physical roots were inspected")
    else return physical.sort (· ≤ ·)

variable {blake3}

theorem validatePhysicalSnapshotInventory_ok {files : RepositoryFiles} {root : String}
    {projectId : ProjectId} {head : InventoryHead} {ids : Finset SnapshotId}
    (hhead : (files.inventoryStore root).inventoryHead blake3 projectId = .ok head)
    (hids : (files.inventoryStore root).loadInventoryIds blake3 projectId head.state = .ok ids)
    (hlisted : files.listSnapshotIds root = .ok ids) :
    files.validatePhysicalSnapshotInventory blake3 root projectId = .ok (ids.sort (· ≤ ·)) := by
  simp only [validatePhysicalSnapshotInventory, hhead, hids, hlisted, except_bind_ok]
  rw [if_neg (not_not.mpr rfl), if_neg (not_not.mpr rfl)]
  rfl

end Hash

end RepositoryFiles

section Hash

variable (chrono : Chrono) (blake3 : Bytes → Digest32)

def SnapshotRepository.loadSnapshotRootHeader (repository : SnapshotRepository)
    (snapshotId : SnapshotId) : CheckPoResult SnapshotRootHeader := do
  let bytes ← repository.readSnapshotBytes snapshotId
  decodeSnapshotRootHeader chrono blake3 snapshotId bytes

end Hash

end CheckPo
