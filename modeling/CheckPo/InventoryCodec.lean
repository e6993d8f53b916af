/-
The binary formats of the snapshot inventory: a state of the inventory, the root of
its set of snapshot ids with one slot for each first byte, and the leaf of one slot.
-/
import CheckPo.ByteSlices
import CheckPo.SnapshotStore

namespace CheckPo

def stateMagic : Bytes := [67, 72, 75, 80, 73, 78, 86, 50]
def rootMagic : Bytes := [67, 72, 75, 80, 73, 78, 82, 50]
def leafMagic : Bytes := [67, 72, 75, 80, 73, 78, 76, 50]
def inventorySchemaVersion : UInt32 := 2
def stateBytes : Nat := 174
def rootHeaderBytes : Nat := 36
def rootSlotBytes : Nat := 37
def rootBytes : Nat := rootHeaderBytes + 256 * rootSlotBytes
def leafHeaderBytes : Nat := 33
def maxLeafBytes : Nat := 256 * 1024 * 1024
def headBytesMax : Nat := 65

/-- The ids are compared as their hexadecimal texts, which is the order of the bytes. -/
instance : LinearOrder Digest32 where
  le left right := left.bytes ≤ right.bytes
  le_refl _ := le_refl _
  le_trans _ _ _ := le_trans
  le_antisymm := by
    rintro ⟨left, hleft⟩ ⟨right, hright⟩ hle hge
    obtain rfl : left = right := le_antisymm hle hge
    rfl
  le_total _ _ := le_total _ _
  toDecidableLE left right := inferInstanceAs (Decidable (left.bytes ≤ right.bytes))
  toDecidableEq := inferInstance

instance Digest32.transLe : IsTrans Digest32 (· ≤ ·) := inferInstance

instance Digest32.antisymmLe : Std.Antisymm fun left right : Digest32 => left ≤ right :=
  inferInstance

def zeroDigest : Digest32 := ⟨List.replicate 32 0, length_zeroDigest⟩

/-- `digest_bytes()[0]`. -/
def Digest32.firstByte (id : Digest32) : UInt8 := byteAt id.bytes 0

/-- `from_digest_bytes` of a slice of 32 bytes; the `expect` on other slices never
fails. -/
def digestFromBytes (bytes : Bytes) : Digest32 :=
  if h : bytes.length = 32 then ⟨bytes, h⟩ else zeroDigest

/-- `from_uuid_bytes` of a slice of 16 bytes. -/
def projectIdFromBytes (bytes : Bytes) : ProjectId :=
  if h : bytes.length = 16 then ⟨bytes, h⟩ else ⟨List.replicate 16 0, length_zeroProject⟩

inductive InventoryOperation where
  /-- `Initialize`. -/
  | initialization
  | add
  | remove
deriving DecidableEq, Repr

structure InventoryState where
  projectId : ProjectId
  generation : UInt64
  count : UInt64
  operation : InventoryOperation
  parent : Option ObjectId
  snapshotId : Option SnapshotId
  operationId : Digest32
  setRoot : ObjectId
deriving DecidableEq

structure LeafRef where
  id : ObjectId
  count : UInt32
deriving DecidableEq

structure SetRoot where
  projectId : ProjectId
  count : UInt64
  leaves : List (Option LeafRef)
deriving DecidableEq

structure SetLeaf where
  projectId : ProjectId
  /-- The source's `prefix`: the first byte of every id of the leaf. -/
  idPrefix : UInt8
  ids : List SnapshotId
deriving DecidableEq

/-! States. -/

def InventoryOperation.toByte : InventoryOperation → UInt8
  | .initialization => 0
  | .add => 1
  | .remove => 2

/-- `u8::from(value.is_some())`. -/
def presentByte {α : Type} (value : Option α) : UInt8 := if value.isSome then 1 else 0

def encodeState (state : InventoryState) : Bytes :=
  stateMagic ++ (Writer.u32 inventorySchemaVersion ++ (state.projectId.val ++
    (Writer.u64 state.generation ++ (Writer.u64 state.count ++
    ([state.operation.toByte] ++ ([presentByte state.parent] ++
    ((state.parent.getD zeroDigest).bytes ++ ((state.snapshotId.getD zeroDigest).bytes ++
    (state.operationId.bytes ++ state.setRoot.bytes)))))))))

def decodeOperation (value : UInt8) : CheckPoResult InventoryOperation :=
  if value = 0 then .ok .initialization
  else if value = 1 then .ok .add
  else if value = 2 then .ok .remove
  else .error (.corruption s!"unknown snapshot inventory operation {value}")

def decodeParent (present : UInt8) (bytes : Bytes) : CheckPoResult (Option ObjectId) :=
  if present = 0 ∧ bytes.all (fun byte => byte == 0) = true then .ok none
  else if present = 1 then .ok (some (digestFromBytes bytes))
  else .error (.corruption "invalid snapshot inventory parent encoding")

def decodeStateSnapshotId (operation : InventoryOperation) (bytes : Bytes) :
    CheckPoResult (Option SnapshotId) :=
  match operation with
  | .initialization =>
      if bytes = zeroDigest.bytes then .ok none
      else .error (.corruption "snapshot inventory initialization has a snapshot id")
  | .add | .remove => .ok (some (digestFromBytes bytes))

/-- The check at the end of `decode_state`. -/
def InventoryState.validShape (state : InventoryState) : Bool :=
  match state.operation with
  | .initialization => state.generation == 0 && state.count == 0 && state.parent.isNone &&
      state.snapshotId.isNone && state.operationId == zeroDigest
  | .add => decide (0 < state.generation) && decide (0 < state.count) &&
      state.parent.isSome && state.snapshotId.isSome && state.operationId != zeroDigest
  | .remove => decide (0 < state.generation) && state.parent.isSome &&
      state.snapshotId.isSome && state.operationId != zeroDigest

def decodeState (bytes : Bytes) : CheckPoResult InventoryState := do
  if bytes.length ≠ stateBytes ∨ slice bytes 0 8 ≠ stateMagic then
    .error (.corruption "invalid snapshot inventory state header")
  else
    let schema := u32FromBe (slice bytes 8 12)
    if schema ≠ inventorySchemaVersion then
      .error (.unsupportedFormat "snapshot inventory state schema" schema.toNat
        inventorySchemaVersion.toNat)
    else
      let operation ← decodeOperation (byteAt bytes 44)
      let parent ← decodeParent (byteAt bytes 45) (slice bytes 46 78)
      let snapshotId ← decodeStateSnapshotId operation (slice bytes 78 110)
      let state : InventoryState := {
        projectId := projectIdFromBytes (slice bytes 12 28)
        generation := u64FromBe (slice bytes 28 36)
        count := u64FromBe (slice bytes 36 44)
        operation, parent, snapshotId
        operationId := digestFromBytes (slice bytes 110 142)
        setRoot := digestFromBytes (slice bytes 142 174) }
      if state.validShape = false then
        .error (.corruption "snapshot inventory state has an invalid shape")
      else return state

/-! Set roots. -/

def encodeSlot (reference : Option LeafRef) : Bytes :=
  [presentByte reference] ++ (((reference.map LeafRef.id).getD zeroDigest).bytes ++
    Writer.u32 ((reference.map LeafRef.count).getD 0))

def encodeSetRoot (root : SetRoot) : CheckPoResult Bytes :=
  if root.leaves.length ≠ 256 then
    .error (.corruption "snapshot inventory set root must have 256 slots")
  else .ok (rootMagic ++ (Writer.u32 inventorySchemaVersion ++ (root.projectId.val ++
    (Writer.u64 root.count ++ root.leaves.flatMap encodeSlot))))

def decodeSlot (bytes : Bytes) : CheckPoResult (Option LeafRef) :=
  let present := byteAt bytes 0
  let digest := slice bytes 1 33
  let leafCount := u32FromBe (slice bytes 33 37)
  if present = 0 ∧ digest = zeroDigest.bytes ∧ leafCount = 0 then .ok none
  else if present = 1 ∧ digest ≠ zeroDigest.bytes ∧ 0 < leafCount then
    .ok (some ⟨digestFromBytes digest, leafCount⟩)
  else .error (.corruption "snapshot inventory set root has an invalid slot")

/-- The loop over the slots; each takes the next 37 bytes. -/
def decodeSlots : Nat → Bytes → CheckPoResult (List (Option LeafRef))
  | 0, _ => .ok []
  | slots + 1, bytes => do
      let reference ← decodeSlot (bytes.take rootSlotBytes)
      return reference :: (← decodeSlots slots (bytes.drop rootSlotBytes))

def decodeSetRoot (bytes : Bytes) : CheckPoResult SetRoot := do
  if bytes.length ≠ rootBytes ∨ slice bytes 0 8 ≠ rootMagic then
    .error (.corruption "invalid snapshot inventory set root header")
  else
    let schema := u32FromBe (slice bytes 8 12)
    if schema ≠ inventorySchemaVersion then
      .error (.unsupportedFormat "snapshot inventory set root schema" schema.toNat
        inventorySchemaVersion.toNat)
    else
      let leaves ← decodeSlots 256 (bytes.drop rootHeaderBytes)
      return ⟨projectIdFromBytes (slice bytes 12 28), u64FromBe (slice bytes 28 36), leaves⟩

/-! Set leaves. -/

/-- `windows(2).all(|pair| pair[0] < pair[1])`. -/
def idsIncreasing : List SnapshotId → Bool
  | left :: right :: rest => decide (left < right) && idsIncreasing (right :: rest)
  | _ => true

def encodeSetLeaf (leaf : SetLeaf) : CheckPoResult Bytes := do
  if leaf.ids = [] then
    .error (.corruption "snapshot inventory set leaf cannot be empty")
  else if idsIncreasing leaf.ids = false ∨
      leaf.ids.any (fun id => id.firstByte != leaf.idPrefix) = true then
    .error (.corruption "snapshot inventory set leaf is not canonical")
  else if 2 ^ 32 ≤ leaf.ids.length then
    .error (.corruption "snapshot inventory set leaf exceeds u32 entries")
  else return leafMagic ++ (Writer.u32 inventorySchemaVersion ++ (leaf.projectId.val ++
    ([leaf.idPrefix] ++ (Writer.u32 (UInt32.ofNat leaf.ids.length) ++
      leaf.ids.flatMap Digest32.bytes))))

/-- The loop over the chunks of 32 bytes, with the id before. -/
def decodeIds (idPrefix : UInt8) : Option SnapshotId → Nat → Bytes →
    CheckPoResult (List SnapshotId)
  | _, 0, _ => .ok []
  | previous, count + 1, bytes => do
      let id := digestFromBytes (bytes.take 32)
      if id.firstByte ≠ idPrefix ∨ previous.any (fun previous => decide (id ≤ previous)) = true then
        .error (.corruption "snapshot inventory set leaf is not canonical")
      else return id :: (← decodeIds idPrefix (some id) count (bytes.drop 32))

/-- A `usize` has 64 bits: the expected length of a leaf cannot overflow. -/
def decodeSetLeaf (bytes : Bytes) : CheckPoResult SetLeaf := do
  if bytes.length < leafHeaderBytes ∨ slice bytes 0 8 ≠ leafMagic then
    .error (.corruption "invalid snapshot inventory set leaf header")
  else
    let schema := u32FromBe (slice bytes 8 12)
    if schema ≠ inventorySchemaVersion then
      .error (.unsupportedFormat "snapshot inventory set leaf schema" schema.toNat
        inventorySchemaVersion.toNat)
    else
      let idPrefix := byteAt bytes 28
      let count := (u32FromBe (slice bytes 29 33)).toNat
      if count = 0 ∨ bytes.length ≠ leafHeaderBytes + count * 32 then
        .error (.corruption "snapshot inventory set leaf has an invalid length")
      else
        let ids ← decodeIds idPrefix none count (bytes.drop leafHeaderBytes)
        return ⟨projectIdFromBytes (slice bytes 12 28), idPrefix, ids⟩

end CheckPo
