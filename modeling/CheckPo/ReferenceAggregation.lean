/-
The aggregation of object references in a rebuild of the index: the manifest graph is
written into temporary tables chunk by chunk, and the multiplicities of the snapshots
are then carried along its edges, parents before children, in pages of ready chunks.
SQLite itself is taken to answer; a row that a query needs and does not find is its error.
-/
import CheckPo.InventoryCodec

namespace CheckPo

/-! The order of the keys in a table. -/

/-- `kind, chunk_id`, as the primary key orders them. -/
def ManifestRef.sqlParts (reference : ManifestRef) : UInt8 ×ₗ Digest32 :=
  toLex (reference.kind.toByte, reference.id)

theorem ManifestRef.sqlParts_injective : Function.Injective ManifestRef.sqlParts := by
  rintro ⟨leftKind, left⟩ ⟨rightKind, right⟩ h
  cases leftKind <;> cases rightKind <;> simp_all [ManifestRef.sqlParts, ChunkKind.toByte]

instance : LinearOrder ManifestRef where
  le left right := left.sqlParts ≤ right.sqlParts
  le_refl reference := le_refl reference.sqlParts
  le_trans _ _ _ hleft hright := le_trans hleft hright
  le_antisymm _ _ hleft hright := ManifestRef.sqlParts_injective (le_antisymm hleft hright)
  le_total left right := le_total left.sqlParts right.sqlParts
  toDecidableLE left right := inferInstanceAs (Decidable (left.sqlParts ≤ right.sqlParts))
  toDecidableEq := instDecidableEqManifestRef

/-! SQLite's signed integers against the unsigned ones of the program. -/

def sqliteI64FromU64 (value : ℕ) (field : String) : CheckPoResult ℤ :=
  if value < 2 ^ 63 then .ok value
  else .error (.corruption s!"{field} value {value} exceeds SQLite's signed integer range")

def rebuildU64 (value : ℤ) (field : String) : CheckPoResult ℕ :=
  if 0 ≤ value then .ok value.toNat
  else .error (.corruption s!"temporary rebuild table contains an invalid {field}: {value}")

/-- The outcome of `checked_add` and `checked_mul` on a `u64`. -/
def checkedU64 (value : ℕ) : Option ℕ := if value < 2 ^ 64 then some value else none

/-- A column's value and an amount, added in `u64`. -/
def addedCount (value : ℤ) (field : String) (amount : ℕ) (message : String) :
    CheckPoResult ℕ := do
  let value ← rebuildU64 value field
  orError (checkedU64 (value + amount)) (.corruption message)

/-! The tables. -/

/-- A row of `rebuild_chunks`. -/
structure RebuildChunk where
  discovered : Bool
  processed : Bool
  incomingRemaining : ℤ
  multiplicity : ℤ
deriving DecidableEq

/-- The defaults of the columns. -/
def RebuildChunk.new : RebuildChunk := ⟨false, false, 0, 0⟩

/-- A row of `rebuild_leaf_objects`. -/
structure RebuildLeafObject where
  expectedSizeBytes : ℤ
  occurrenceCount : ℤ
deriving DecidableEq

structure RebuildTables where
  chunks : Finmap fun _ : ManifestRef => RebuildChunk
  pending : Finset ManifestRef
  /-- `edge_count` of a parent and a child. -/
  edges : Finmap fun _ : ManifestRef × ManifestRef => ℤ
  leafObjects : Finmap fun _ : ManifestRef × ObjectId => RebuildLeafObject

def prepareRebuildAggregationTables : RebuildTables := ⟨∅, ∅, ∅, ∅⟩

/-- A row of `object_refs`. -/
structure ObjectRef where
  expectedSizeBytes : ℤ
  referenceCount : ℤ
  presentSizeBytes : Option ℤ
deriving DecidableEq

abbrev ObjectRefs := Finmap fun _ : ObjectId => ObjectRef

variable (dbPath : String)

/-- A query that has to return a row. -/
def queryRow {α : Type} (row : Option α) : CheckPoResult α :=
  orError row (.db dbPath "Query returned no rows")

/-! Writing the graph into the tables. -/

def queueRebuildManifestRoot (tables : RebuildTables) (reference : ManifestRef) :
    CheckPoResult RebuildTables :=
  match tables.chunks.lookup reference with
  | some row => do
      let next ← addedCount row.multiplicity "manifest root multiplicity" 1
        "manifest root multiplicity exceeds the supported range"
      let multiplicity ← sqliteI64FromU64 next "manifest root multiplicity"
      return { tables with chunks := tables.chunks.insert reference { row with multiplicity } }
  | none =>
      .ok { tables with
        chunks := tables.chunks.insert reference { RebuildChunk.new with multiplicity := 1 }
        pending := insert reference tables.pending }

def nextEdgeCount (tables : RebuildTables) (parent child : ManifestRef) : CheckPoResult ℕ :=
  match tables.edges.lookup (parent, child) with
  | some value =>
      addedCount value "manifest edge count" 1
        "manifest edge count exceeds the supported range"
  | none => .ok 1

/-- `INSERT OR IGNORE` of the child, which is pending when it was inserted, then the two
counts. -/
def discoverRebuildEdge (parent : ManifestRef) (tables : RebuildTables) (child : ManifestRef) :
    CheckPoResult RebuildTables := do
  let known := tables.chunks.lookup child
  let edgeCount ← nextEdgeCount tables parent child
  let edgeCount ← sqliteI64FromU64 edgeCount "manifest edge count"
  let row := known.getD .new
  let nextIncoming ← addedCount row.incomingRemaining "manifest incoming edge count" 1
    "manifest incoming edge count exceeds the supported range"
  let incomingRemaining ← sqliteI64FromU64 nextIncoming "manifest incoming edge count"
  return { tables with
    chunks := tables.chunks.insert child { row with incomingRemaining }
    pending := if known.isSome then tables.pending else insert child tables.pending
    edges := tables.edges.insert (parent, child) edgeCount }

def discoverRebuildLeafObject (leaf : ManifestRef) (tables : RebuildTables) (entry : LeafEntry) :
    CheckPoResult RebuildTables :=
  match tables.leafObjects.lookup (leaf, entry.objectId) with
  | some row => do
      let existingSize ← rebuildU64 row.expectedSizeBytes "leaf object size"
      if existingSize ≠ entry.sizeBytes.toNat then
        .error (.corruption
          s!"object {entry.objectId.toHex} has conflicting expected sizes in a manifest leaf")
      else do
        let count ← addedCount row.occurrenceCount "leaf object occurrence count" 1
          "leaf object occurrence count exceeds the supported range"
        let occurrenceCount ← sqliteI64FromU64 count "leaf object occurrence count"
        return { tables with leafObjects :=
          tables.leafObjects.insert (leaf, entry.objectId) { row with occurrenceCount } }
  | none => do
      let size ← sqliteI64FromU64 entry.sizeBytes.toNat "leaf object size"
      return { tables with leafObjects :=
        tables.leafObjects.insert (leaf, entry.objectId) ⟨size, 1⟩ }

/-- A chunk's id in a table is that of a node or a leaf. -/
def manifestRefFromSql (reference : ManifestRef) : CheckPoResult ManifestRef :=
  if reference.kind = .root then
    .error (.corruption "manifest chunk kind in rebuild table is invalid")
  else .ok reference

def snapshotV2IndexError {α : Type} (result : SnapshotV2Result α) : CheckPoResult α :=
  result.mapError fun error => .corruption error.message

/-- `UPDATE … WHERE kind = ?1 AND chunk_id = ?2`. -/
def RebuildTables.update (tables : RebuildTables) (reference : ManifestRef)
    (change : RebuildChunk → RebuildChunk) : RebuildTables :=
  match tables.chunks.lookup reference with
  | some row => { tables with chunks := tables.chunks.insert reference (change row) }
  | none => tables

section Discover

variable (load : ManifestRef → SnapshotV2Result DecodedChunk)

def discoverRebuildContent (reference : ManifestRef) (tables : RebuildTables) :
    DecodedChunk → CheckPoResult RebuildTables
  | .node node _ =>
      (node.children.map ManifestChild.child).foldlM (discoverRebuildEdge reference) tables
  | .leaf leaf _ => leaf.entries.foldlM (discoverRebuildLeafObject reference) tables

/-- One turn of the loop, for the pending chunk that comes first. -/
def discoverRebuildChunk (tables : RebuildTables) (next : ManifestRef) :
    CheckPoResult RebuildTables := do
  let reference ← manifestRefFromSql next
  let chunk ← snapshotV2IndexError (load reference)
  let tables ← discoverRebuildContent reference
    { tables with pending := tables.pending.erase reference } chunk
  return tables.update reference fun row => { row with discovered := true }

/-- The loop, `none` when the turns run out. -/
def discoverRebuildManifestGraph : ℕ → RebuildTables → Option (CheckPoResult RebuildTables)
  | 0, _ => none
  | turns + 1, tables =>
      match (tables.pending.sort (· ≤ ·)).head? with
      | none => some (.ok tables)
      | some next =>
          match discoverRebuildChunk load tables next with
          | .ok tables => discoverRebuildManifestGraph turns tables
          | .error error => some (.error error)

end Discover

/-! Carrying the multiplicities. -/

def incrementObjectRef (refs : ObjectRefs) (objectId : ObjectId) (size count : ℕ) :
    CheckPoResult ObjectRefs := do
  let size ← sqliteI64FromU64 size "object expected size in bytes"
  match refs.lookup objectId with
  | some row =>
      if row.expectedSizeBytes ≠ size then
        let known := row.expectedSizeBytes
        .error (.corruption
          s!"object {objectId.toHex} has conflicting expected sizes {known} and {size}")
      else do
        let nextCount ← addedCount row.referenceCount "object reference count" count
          s!"object {objectId.toHex} reference count exceeds the supported range"
        let referenceCount ← sqliteI64FromU64 nextCount "object reference count"
        return refs.insert objectId ⟨row.expectedSizeBytes, referenceCount, some size⟩
  | none => do
      let referenceCount ← sqliteI64FromU64 count "object reference count"
      -- `CHECK(reference_count > 0)`
      if referenceCount ≤ 0 then
        .error (.db dbPath "CHECK constraint failed: reference_count > 0")
      else .ok (refs.insert objectId ⟨size, referenceCount, some size⟩)

/-- What the loop over the ready chunks changes.  `processed` lists the chunks in the
order in which they were processed, and `processed_chunks` is its length. -/
structure Aggregation where
  tables : RebuildTables
  refs : ObjectRefs
  aggregatedObjectCount : ℕ
  processed : List ManifestRef

/-- `WHERE discovered = 1 AND processed = 0 AND incoming_remaining = 0`. -/
def RebuildTables.isReady (tables : RebuildTables) (reference : ManifestRef) : Bool :=
  match tables.chunks.lookup reference with
  | some row => row.discovered && !row.processed && row.incomingRemaining == 0
  | none => false

def readReadyRebuildChunks (tables : RebuildTables) (limit : ℕ) :
    CheckPoResult (List ManifestRef) :=
  (((tables.chunks.keys.filter (tables.isReady ·)).sort (· ≤ ·)).take limit).mapM
    manifestRefFromSql

/-- The children of a chunk with a row in `rebuild_edges`. -/
def RebuildTables.childrenOf (tables : RebuildTables) (parent : ManifestRef) :
    List ManifestRef :=
  ((tables.edges.keys.filter (·.1 = parent)).image Prod.snd).sort (· ≤ ·)

def RebuildTables.objectsOf (tables : RebuildTables) (leaf : ManifestRef) : List ObjectId :=
  ((tables.leafObjects.keys.filter (·.1 = leaf)).image Prod.snd).sort (· ≤ ·)

def followRebuildEdge (parent : ManifestRef) (multiplicity : ℕ) (state : Aggregation)
    (child : ManifestRef) : CheckPoResult Aggregation := do
  let edgeCount ← queryRow dbPath (state.tables.edges.lookup (parent, child))
  let edgeCount ← rebuildU64 edgeCount "manifest edge count"
  let row ← queryRow dbPath (state.tables.chunks.lookup child)
  let contribution ← orError (checkedU64 (multiplicity * edgeCount))
    (.corruption "manifest multiplicity exceeds the supported range")
  let childMultiplicity ← addedCount row.multiplicity "child manifest multiplicity" contribution
    "manifest multiplicity exceeds the supported range"
  let incoming ← rebuildU64 row.incomingRemaining "manifest incoming edge count"
  if incoming < edgeCount then
    .error (.corruption "manifest incoming edge count underflow")
  else do
    let multiplicity ← sqliteI64FromU64 childMultiplicity "child manifest multiplicity"
    let incomingRemaining ←
      sqliteI64FromU64 (incoming - edgeCount) "manifest incoming edge count"
    return { state with tables := { state.tables with
      chunks := state.tables.chunks.insert child { row with multiplicity, incomingRemaining } } }

def aggregateRebuildObject (leaf : ManifestRef) (multiplicity : ℕ) (state : Aggregation)
    (objectId : ObjectId) : CheckPoResult Aggregation := do
  let row ← queryRow dbPath (state.tables.leafObjects.lookup (leaf, objectId))
  let size ← rebuildU64 row.expectedSizeBytes "object expected size"
  let occurrenceCount ← rebuildU64 row.occurrenceCount "object occurrence count"
  let referenceCount ← orError (checkedU64 (multiplicity * occurrenceCount))
    (.corruption s!"object {objectId.toHex} reference count exceeds the supported range")
  let refs ← incrementObjectRef dbPath state.refs objectId size referenceCount
  let aggregatedObjectCount ← orError (checkedU64 (state.aggregatedObjectCount + 1))
    (.corruption "aggregated object count exceeds the supported range")
  return { state with refs, aggregatedObjectCount }

def carryRebuildChunk (reference : ManifestRef) (multiplicity : ℕ) (state : Aggregation) :
    CheckPoResult Aggregation :=
  match reference.kind with
  | .node =>
      (state.tables.childrenOf reference).foldlM
        (followRebuildEdge dbPath reference multiplicity) state
  | .leaf =>
      (state.tables.objectsOf reference).foldlM
        (aggregateRebuildObject dbPath reference multiplicity) state
  | .root => .error (.corruption "manifest aggregation encountered a snapshot root")

/-- One ready chunk, with the count that the caller keeps of them. -/
def processReadyRebuildChunk (state : Aggregation) (reference : ManifestRef) :
    CheckPoResult Aggregation := do
  let row ← queryRow dbPath (state.tables.chunks.lookup reference)
  let multiplicity ← rebuildU64 row.multiplicity "manifest multiplicity"
  let state ← carryRebuildChunk dbPath reference multiplicity state
  let _ ← orError (checkedU64 (state.processed.length + 1))
    (.corruption "processed manifest chunk count exceeds the supported range")
  return { state with
    tables := state.tables.update reference fun row => { row with processed := true }
    processed := state.processed ++ [reference] }

/-- The loop over pages of ready chunks, `none` when the turns run out. -/
def processReadyRebuildChunks : ℕ → Aggregation → Option (CheckPoResult Aggregation)
  | 0, _ => none
  | turns + 1, state =>
      match readReadyRebuildChunks state.tables 256 with
      | .error error => some (.error error)
      | .ok [] => some (.ok state)
      | .ok ready =>
          match ready.foldlM (processReadyRebuildChunk dbPath) state with
          | .ok state => processReadyRebuildChunks turns state
          | .error error => some (.error error)

def aggregateManifestObjectReferences (load : ManifestRef → SnapshotV2Result DecodedChunk)
    (turns : ℕ) (tables : RebuildTables) (refs : ObjectRefs) :
    Option (CheckPoResult Aggregation) := do
  match ← discoverRebuildManifestGraph load turns tables with
  | .error error => return .error error
  | .ok tables =>
      let totalChunks := tables.chunks.keys.card
      match ← processReadyRebuildChunks dbPath turns ⟨tables, refs, 0, []⟩ with
      | .error error => return .error error
      | .ok state =>
          if state.processed.length ≠ totalChunks then
            return .error (.corruption "manifest graph contains a cycle")
          else return .ok state

end CheckPo
