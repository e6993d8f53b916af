/-
The snapshot inventory on disk: content-addressed states, set roots and set leaves,
and the head that names the current state.  Adding or removing a snapshot stores a new
leaf, set root and state before the head is replaced.
-/
import CheckPo.HexIds
import CheckPo.InventoryCodec
import CheckPo.Durable
import CheckPo.SortedShards

namespace CheckPo

/-- The domain strings end in a zero byte. -/
def operationDomain : Bytes :=
  "checkpo.snapshot-inventory-operation.v2".toByteArray.data.toList ++ [0]
def stateDomain : Bytes :=
  "checkpo.snapshot-inventory-state.v2".toByteArray.data.toList ++ [0]
def setRootDomain : Bytes :=
  "checkpo.snapshot-inventory-set-root.v2".toByteArray.data.toList ++ [0]
def setLeafDomain : Bytes :=
  "checkpo.snapshot-inventory-set-leaf.v2".toByteArray.data.toList ++ [0]

/-- The files below `inventory/snapshots` of a repository. -/
structure InventoryStore where
  /-- The display path of the repository. -/
  path : String
  head : Option Bytes
  states : ObjectId → Option Bytes
  setRoots : ObjectId → Option Bytes
  setLeaves : ObjectId → Option Bytes

structure InventoryHead where
  id : ObjectId
  state : InventoryState
deriving DecidableEq

/-- `root.leaves[slot]`; a decoded root has all 256 slots. -/
def SetRoot.slot (root : SetRoot) (idPrefix : UInt8) : Option LeafRef :=
  root.leaves.getD idPrefix.toNat none

/-- A byte as `{:02x}`. -/
def hexByte (byte : UInt8) : String :=
  String.ofList [lowerHexDigit (byte.toNat / 16), lowerHexDigit (byte.toNat % 16)]

def projectIdText (projectId : ProjectId) : String := String.join (projectId.val.map hexByte)

namespace InventoryStore

def inventoryHeadPath (store : InventoryStore) : String :=
  s!"{store.path}/inventory/snapshots/head"

def inventoryStatePath (store : InventoryStore) (id : ObjectId) : String :=
  s!"{store.path}/inventory/snapshots/states/{id.toHex.take 2}/{id.toHex}.state"

def inventorySetRootPath (store : InventoryStore) (id : ObjectId) : String :=
  s!"{store.path}/inventory/snapshots/sets/roots/{id.toHex.take 2}/{id.toHex}.root"

def inventorySetLeafPath (store : InventoryStore) (id : ObjectId) : String :=
  s!"{store.path}/inventory/snapshots/sets/leaves/{id.toHex.take 2}/{id.toHex}.leaf"

end InventoryStore

def emptySetRoot (projectId : ProjectId) : SetRoot := ⟨projectId, 0, List.replicate 256 none⟩

/-- The state that `Initialize` stores. -/
def firstState (projectId : ProjectId) (setRoot : ObjectId) : InventoryState where
  projectId := projectId
  generation := 0
  count := 0
  operation := .initialization
  parent := none
  snapshotId := none
  operationId := zeroDigest
  setRoot := setRoot

section Hash

variable (blake3 : Bytes → Digest32)

def inventoryOperationId (operationId : String) : Digest32 :=
  domainHash blake3 operationDomain (utf8 operationId)

def stateId (bytes : Bytes) : ObjectId := domainHash blake3 stateDomain bytes
def setRootId (bytes : Bytes) : ObjectId := domainHash blake3 setRootDomain bytes
def setLeafId (bytes : Bytes) : ObjectId := domainHash blake3 setLeafDomain bytes

/-! Reading. -/

namespace InventoryStore

def loadState (store : InventoryStore) (id : ObjectId) (projectId : ProjectId) :
    CheckPoResult InventoryHead := do
  let path := store.inventoryStatePath id
  let bytes ← SnapshotRepository.readBytesBounded path (store.states id) stateBytes
  if bytes.length ≠ stateBytes then
    .error (.corruption s!"snapshot inventory state has invalid length: {path}")
  else
    let actual := stateId blake3 bytes
    if actual ≠ id then
      .error (.corruption
        s!"snapshot inventory state digest mismatch: expected {id.toHex}, got {actual.toHex}")
    else
      let state ← decodeState bytes
      if state.projectId ≠ projectId then
        .error (.corruption
          s!"snapshot inventory belongs to project {projectIdText state.projectId}, expected {projectIdText projectId}")
      else return ⟨id, state⟩

def loadSetRoot (store : InventoryStore) (id : ObjectId) (projectId : ProjectId) :
    CheckPoResult SetRoot := do
  let path := store.inventorySetRootPath id
  let bytes ← SnapshotRepository.readBytesBounded path (store.setRoots id) rootBytes
  if bytes.length ≠ rootBytes then
    .error (.corruption s!"snapshot inventory set root has invalid length: {path}")
  else
    let actual := setRootId blake3 bytes
    if actual ≠ id then
      .error (.corruption
        s!"snapshot inventory set root digest mismatch: expected {id.toHex}, got {actual.toHex}")
    else
      let root ← decodeSetRoot bytes
      if root.projectId ≠ projectId then
        .error (.corruption
          s!"snapshot inventory set root belongs to project {projectIdText root.projectId}, expected {projectIdText projectId}")
      else return root

def loadSetLeaf (store : InventoryStore) (id : ObjectId) (projectId : ProjectId)
    (expectedPrefix : UInt8) : CheckPoResult SetLeaf := do
  let path := store.inventorySetLeafPath id
  let bytes ← SnapshotRepository.readBytesBounded path (store.setLeaves id) maxLeafBytes
  let actual := setLeafId blake3 bytes
  if actual ≠ id then
    .error (.corruption
      s!"snapshot inventory set leaf digest mismatch: expected {id.toHex}, got {actual.toHex}")
  else
    let leaf ← decodeSetLeaf bytes
    if leaf.projectId ≠ projectId ∨ leaf.idPrefix ≠ expectedPrefix then
      .error (.corruption
        s!"snapshot inventory set leaf {id.toHex} has the wrong project or prefix")
    else return leaf

/-- The leaf of a slot, with the check of its count. -/
def loadSlotLeaf (store : InventoryStore) (projectId : ProjectId) (reference : LeafRef)
    (idPrefix : UInt8) : CheckPoResult SetLeaf := do
  let leaf ← store.loadSetLeaf blake3 reference.id projectId idPrefix
  if leaf.ids.length ≠ reference.count.toNat then
    .error (.corruption s!"snapshot inventory leaf {hexByte idPrefix} count mismatch")
  else return leaf

def inventoryHead (store : InventoryStore) (projectId : ProjectId) :
    CheckPoResult InventoryHead := do
  let path := store.inventoryHeadPath
  let bytes ← SnapshotRepository.readBytesBounded path store.head headBytesMax
  let id ← parseHead path bytes
  store.loadState blake3 id projectId

/-- The set root of a state, with the check of its count. -/
def loadStateRoot (store : InventoryStore) (projectId : ProjectId) (state : InventoryState) :
    CheckPoResult SetRoot := do
  let root ← store.loadSetRoot blake3 state.setRoot projectId
  if root.count ≠ state.count then
    .error (.corruption "snapshot inventory state count does not match its set root")
  else return root

/-- One round of the loop in `load_inventory_ids`: a slot with its number. -/
def collectSlot (store : InventoryStore) (projectId : ProjectId)
    (progress : Finset SnapshotId × UInt64) (slot : Option LeafRef × Nat) :
    CheckPoResult (Finset SnapshotId × UInt64) :=
  match slot.1 with
  | none => .ok progress
  | some reference => do
      let leaf ← store.loadSlotLeaf blake3 projectId reference (UInt8.ofNat slot.2)
      let total ← orError (checkedAdd progress.2 (UInt64.ofNat reference.count.toNat))
        (.corruption "snapshot inventory set count overflow")
      let ids ← leaf.ids.foldlM (fun ids id =>
        if id ∈ ids then
          .error (.corruption s!"snapshot inventory set contains duplicate root {id.toHex}")
        else .ok (insert id ids)) progress.1
      return (ids, total)

def loadInventoryIds (store : InventoryStore) (projectId : ProjectId) (state : InventoryState) :
    CheckPoResult (Finset SnapshotId) := do
  let root ← store.loadStateRoot blake3 projectId state
  let (ids, total) ← root.leaves.zipIdx.foldlM (store.collectSlot blake3 projectId) (∅, 0)
  if total ≠ root.count ∨ UInt64.ofNat ids.card ≠ root.count then
    .error (.corruption "snapshot inventory set root count mismatch")
  else return ids

def setRootContains (store : InventoryStore) (projectId : ProjectId) (root : SetRoot)
    (snapshotId : SnapshotId) : CheckPoResult Bool :=
  match root.slot snapshotId.firstByte with
  | none => .ok false
  | some reference => do
      let leaf ← store.loadSlotLeaf blake3 projectId reference snapshotId.firstByte
      return (binarySearch leaf.ids snapshotId).isOk

/-! Storing: content-addressed bytes are published under their id in one atomic step;
equal bytes stay and others are repaired. -/

def withState (store : InventoryStore) (bytes : Bytes) : InventoryStore :=
  { store with states := Function.update store.states (stateId blake3 bytes) (some bytes) }

def withSetRoot (store : InventoryStore) (bytes : Bytes) : InventoryStore :=
  { store with setRoots := Function.update store.setRoots (setRootId blake3 bytes) (some bytes) }

def withSetLeaf (store : InventoryStore) (bytes : Bytes) : InventoryStore :=
  { store with setLeaves := Function.update store.setLeaves (setLeafId blake3 bytes) (some bytes) }

def withHead (store : InventoryStore) (id : ObjectId) : InventoryStore :=
  { store with head := some (headBytes id) }

end InventoryStore

abbrev InventoryM := Durable InventoryStore CheckPoError

def storeState (state : InventoryState) : InventoryM ObjectId := do
  let bytes := encodeState state
  Durable.write fun store => store.withState blake3 bytes
  return stateId blake3 bytes

def storeSetRoot (root : SetRoot) : InventoryM ObjectId := do
  let bytes ← Durable.lift (encodeSetRoot root)
  Durable.write fun store => store.withSetRoot blake3 bytes
  return setRootId blake3 bytes

def storeSetLeaf (leaf : SetLeaf) : InventoryM ObjectId := do
  let bytes ← Durable.lift (encodeSetLeaf leaf)
  Durable.write fun store => store.withSetLeaf blake3 bytes
  return setLeafId blake3 bytes

def writeHead (id : ObjectId) : InventoryM Unit :=
  Durable.write fun store => store.withHead id

/-- `initialize_snapshot_inventory_anchored`; `snapshotNames` lists `snapshots/v2`. -/
def initializeSnapshotInventory (projectId : ProjectId) (snapshotNames : List String) :
    InventoryM Unit := do
  let head ← Durable.inspect fun store => .ok store.head
  match head with
  | some _ =>
      let _ ← Durable.inspect fun store => store.inventoryHead blake3 projectId
      return ()
  | none =>
      if snapshotNames ≠ [] then
        Durable.lift (.error
          (.corruption "snapshot inventory is missing for a non-empty repository"))
      else do
        let setRoot ← storeSetRoot blake3 (emptySetRoot projectId)
        let id ← storeState blake3 (firstState projectId setRoot)
        writeHead id

/-! Transitions. -/

/-- The ids of a leaf after the operation. -/
def mutateIds (operation : InventoryOperation) (ids : List SnapshotId)
    (snapshotId : SnapshotId) : CheckPoResult (List SnapshotId) :=
  match operation, binarySearch ids snapshotId with
  | .add, .ok _ =>
      .error (.corruption s!"snapshot inventory adds duplicate root {snapshotId.toHex}")
  | .add, .error index => .ok (ids.insertIdx index snapshotId)
  | .remove, .ok index => .ok (ids.eraseIdx index)
  | .remove, .error _ =>
      .error (.corruption s!"snapshot inventory removes unknown root {snapshotId.toHex}")
  -- `unreachable!()`: the callers add or remove
  | .initialization, _ => .error (.unexpected "unreachable")

def mutateCount (operation : InventoryOperation) (count : UInt64) : CheckPoResult UInt64 :=
  match operation with
  | .add => orError (checkedAdd count 1) (.corruption "snapshot inventory count overflow")
  | .remove => orError (checkedSub count 1) (.corruption "snapshot inventory count overflow")
  | .initialization => .error (.unexpected "unreachable")

/-- The slot of a mutated leaf: nothing for an empty leaf, else the leaf is stored. -/
def storeSlotLeaf (leaf : SetLeaf) : InventoryM (Option LeafRef) :=
  if leaf.ids = [] then return none
  else if 2 ^ 32 ≤ leaf.ids.length then
    Durable.lift (.error (.corruption
      s!"snapshot inventory leaf {hexByte leaf.idPrefix} exceeds u32 entries"))
  else do
    let id ← storeSetLeaf blake3 leaf
    return some ⟨id, UInt32.ofNat leaf.ids.length⟩

/-- The leaf that a mutation changes, as it is before. -/
def InventoryStore.leafBefore (store : InventoryStore) (projectId : ProjectId) (root : SetRoot)
    (idPrefix : UInt8) : CheckPoResult SetLeaf :=
  match root.slot idPrefix with
  | some reference => store.loadSlotLeaf blake3 projectId reference idPrefix
  | none => .ok ⟨projectId, idPrefix, []⟩

/-- What `mutate_set` reads and works out before it stores anything: the set root, the
changed leaf and the new count. -/
def InventoryStore.mutatedSet (store : InventoryStore) (projectId : ProjectId)
    (state : InventoryState) (operation : InventoryOperation) (snapshotId : SnapshotId) :
    CheckPoResult (SetRoot × SetLeaf × UInt64) := do
  let root ← store.loadStateRoot blake3 projectId state
  let leaf ← store.leafBefore blake3 projectId root snapshotId.firstByte
  let ids ← mutateIds operation leaf.ids snapshotId
  let count ← mutateCount operation state.count
  return (root, { leaf with ids }, count)

def mutateSet (projectId : ProjectId) (state : InventoryState) (operation : InventoryOperation)
    (snapshotId : SnapshotId) : InventoryM (ObjectId × UInt64) := do
  let (root, leaf, count) ← Durable.inspect fun store =>
    store.mutatedSet blake3 projectId state operation snapshotId
  let slot ← storeSlotLeaf blake3 leaf
  let setRoot ← storeSetRoot blake3
    { root with count, leaves := root.leaves.set snapshotId.firstByte.toNat slot }
  return (setRoot, count)

/-- The second half of `transition_inventory`: the replay test and the commit. -/
def commitState (projectId : ProjectId) (expectedId : ObjectId) (state : InventoryState) :
    InventoryM String := do
  let newId := stateId blake3 (encodeState state)
  let current ← Durable.inspect fun store => store.inventoryHead blake3 projectId
  if current.id = newId then
    if current.state ≠ state then
      Durable.lift (.error (.corruption
        "snapshot inventory replay state does not match its operation"))
    else return newId.toHex
  else if current.id ≠ expectedId then
    Durable.inspect fun store => .error (.workingTreeChanged store.inventoryHeadPath)
  else
    let stored ← storeState blake3 state
    let again ← Durable.inspect fun store => store.inventoryHead blake3 projectId
    if again.id ≠ expectedId then
      Durable.inspect fun store => .error (.workingTreeChanged store.inventoryHeadPath)
    else
      writeHead stored
      let committed ← Durable.inspect fun store => store.inventoryHead blake3 projectId
      if committed.id ≠ stored then
        Durable.lift (.error (.corruption "snapshot inventory head commit did not persist"))
      else return stored.toHex

def transitionInventory (projectId : ProjectId) (operation : InventoryOperation)
    (snapshotId : SnapshotId) (expectedHeadId operationId : String) : InventoryM String := do
  if operationId = "" then
    Durable.lift (.error (.corruption "snapshot inventory operation id is empty"))
  else
    let expectedId ← Durable.lift (match parseLowerHexId "object" expectedHeadId with
      | .ok id => .ok id
      | .error _ => .error (.corruption "snapshot inventory expected head id is invalid"))
    let expected ← Durable.inspect fun store => store.loadState blake3 expectedId projectId
    let (setRoot, count) ← mutateSet blake3 projectId expected.state operation snapshotId
    let generation ← Durable.lift (orError (checkedAdd expected.state.generation 1)
      (.corruption "snapshot inventory generation overflow"))
    commitState blake3 projectId expected.id {
      projectId, generation, count, operation, parent := some expected.id
      snapshotId := some snapshotId, operationId := inventoryOperationId blake3 operationId
      setRoot }

/-! The projected removal of a snapshot. -/

/-- The snapshot that a state adds, if it adds one. -/
def addedCandidate (state : InventoryState) : CheckPoResult (Option SnapshotId) :=
  if state.operation = .add then
    match state.snapshotId with
    | none => .error (.corruption "snapshot inventory Add has no snapshot id")
    | some candidate => .ok (some candidate)
  else .ok none

theorem checkedAdd_eq_some {left right result : UInt64} :
    checkedAdd left right = some result ↔ left.toNat + right.toNat = result.toNat := by
  have hresult := UInt64.toNat_lt result
  rw [checkedAdd]
  split_ifs with hlt
  · rw [Option.some.injEq, ← UInt64.toNat_inj, UInt64.toNat_add, Nat.mod_eq_of_lt hlt]
  · constructor
    · intro hnone
      cases hnone
    · omega

/-- The walk from a state back through its parents to the newest Add that survives.
A parent's generation is one less, so the walk ends. -/
def walkLineage (store : InventoryStore) (projectId : ProjectId)
    (remaining : Finset SnapshotId) (cursor : InventoryHead) (visited : Finset ObjectId) :
    CheckPoResult SnapshotId :=
  if cursor.id ∈ visited then
    .error (.corruption "snapshot inventory state chain contains a cycle")
  else
    match addedCandidate cursor.state with
    | .error error => .error error
    | .ok candidate =>
        match candidate.filter fun candidate => decide (candidate ∈ remaining) with
        | some survivor => .ok survivor
        | none =>
            match cursor.state.parent with
            | none => .error (.corruption
                "snapshot inventory cannot identify the newest surviving checkpoint")
            | some parentId =>
                match store.loadState blake3 parentId projectId with
                | .error error => .error error
                | .ok parent =>
                    if _h : checkedAdd parent.state.generation 1 = some cursor.state.generation then
                      walkLineage store projectId remaining parent (insert cursor.id visited)
                    else .error (.corruption
                      "snapshot inventory state generations are not contiguous")
termination_by cursor.state.generation.toNat
decreasing_by
  exact Nat.lt_of_succ_le (checkedAdd_eq_some.mp _h).le

/-- The preferred parent, if it is another member. -/
def survivingParent (store : InventoryStore) (projectId : ProjectId) (root : SetRoot)
    (removed : SnapshotId) (preferredParent : Option SnapshotId) :
    CheckPoResult (Option SnapshotId) :=
  match preferredParent with
  | none => .ok none
  | some parent =>
      if parent = removed then .ok none
      else do
        let present ← store.setRootContains blake3 projectId root parent
        return if present = true then some parent else none

/-- A `usize` has 64 bits: the remaining count fits. -/
def projectSnapshotRemoval (store : InventoryStore) (projectId : ProjectId)
    (removed : SnapshotId) (currentLatest preferredParent : Option SnapshotId) :
    CheckPoResult (Nat × Option SnapshotId) := do
  let head ← store.inventoryHead blake3 projectId
  if head.state.count = 0 then
    .error (.corruption "cannot remove a snapshot from an empty inventory")
  else
    let root ← store.loadStateRoot blake3 projectId head.state
    let present ← store.setRootContains blake3 projectId root removed
    if present = false then
      .error (.corruption s!"snapshot inventory does not contain root {removed.toHex}")
    else
      let remainingCount ← orError (checkedSub head.state.count 1)
        (.corruption "snapshot inventory count underflow")
      if currentLatest ≠ some removed then
        match currentLatest with
        | none => return (remainingCount.toNat, none)
        | some latest =>
            if (← store.setRootContains blake3 projectId root latest) = false then
              .error (.corruption
                s!"refs/latest points outside the snapshot inventory: {latest.toHex}")
            else return (remainingCount.toNat, some latest)
      else if remainingCount = 0 then return (0, none)
      else
        match ← survivingParent blake3 store projectId root removed preferredParent with
        | some parent => return (remainingCount.toNat, some parent)
        | none =>
            let ids ← store.loadInventoryIds blake3 projectId head.state
            let survivor ← walkLineage blake3 store projectId (ids.erase removed) head ∅
            return (remainingCount.toNat, some survivor)

end Hash

end CheckPo
