/-
What one transition of the inventory does: the readers inverted, what each store
leaves as it was, and the writes of a transition with its result.
-/
import CheckPo.InventoryStore
import CheckPo.InventoryCodecCanonical

namespace CheckPo

theorem readBytesBounded_eq_ok {path : String} {content : Option Bytes} {maxBytes : Nat}
    {bytes : Bytes} :
    SnapshotRepository.readBytesBounded path content maxBytes = .ok bytes ↔
      content = some bytes ∧ bytes.length ≤ maxBytes := by
  cases content with
  | none => simp [SnapshotRepository.readBytesBounded]
  | some found =>
      simp only [SnapshotRepository.readBytesBounded, except_guard_eq_ok, Except.ok.injEq,
        Option.some.injEq, not_lt]
      constructor
      · rintro ⟨hlength, rfl⟩
        exact ⟨rfl, hlength⟩
      · rintro ⟨rfl, hlength⟩
        exact ⟨hlength, rfl⟩

theorem decodeState_eq_ok {bytes : Bytes} {state : InventoryState} :
    decodeState bytes = .ok state ↔ encodeState state = bytes ∧ state.validShape = true := by
  constructor
  · intro h
    refine ⟨encodeState_of_decodeState h, ?_⟩
    simp only [decodeState, except_guard_eq_ok, except_bind_eq_ok, except_pure_eq_ok] at h
    obtain ⟨-, -, _, -, _, -, _, -, hshape, rfl⟩ := h
    exact Bool.eq_true_of_not_eq_false hshape
  · rintro ⟨rfl, hshape⟩
    exact decodeState_encodeState hshape

theorem decodeSetRoot_eq_ok {bytes : Bytes} {root : SetRoot} :
    decodeSetRoot bytes = .ok root ↔ encodeSetRoot root = .ok bytes ∧ root.SlotsValid :=
  ⟨encodeSetRoot_of_decodeSetRoot, fun ⟨hencode, hvalid⟩ =>
    decodeSetRoot_encodeSetRoot hencode hvalid⟩

theorem decodeSetLeaf_eq_ok {bytes : Bytes} {leaf : SetLeaf} :
    decodeSetLeaf bytes = .ok leaf ↔ encodeSetLeaf leaf = .ok bytes :=
  ⟨fun h => (encodeSetLeaf_of_decodeSetLeaf h).1, decodeSetLeaf_encodeSetLeaf⟩

section Hash

variable {blake3 : Bytes → Digest32} {store : InventoryStore} {projectId : ProjectId}

/-! The readers. -/

theorem loadState_eq_ok {id : ObjectId} {head : InventoryHead} :
    store.loadState blake3 id projectId = .ok head ↔
      head.id = id ∧ store.states id = some (encodeState head.state) ∧
        stateId blake3 (encodeState head.state) = id ∧ head.state.validShape = true ∧
        head.state.projectId = projectId := by
  obtain ⟨headId, state⟩ := head
  simp only [InventoryStore.loadState, except_bind_eq_ok, readBytesBounded_eq_ok,
    except_guard_eq_ok, except_pure_eq_ok, decodeState_eq_ok, ne_eq, not_not,
    InventoryHead.mk.injEq]
  constructor
  · rintro ⟨bytes, ⟨hbytes, -⟩, -, hid, _, ⟨rfl, hshape⟩, hproject, rfl, rfl⟩
    exact ⟨rfl, hbytes, hid, hshape, hproject⟩
  · rintro ⟨rfl, hbytes, hid, hshape, hproject⟩
    have hlength := length_encodeState state
    exact ⟨_, ⟨hbytes, hlength.le⟩, hlength, hid, state, ⟨rfl, hshape⟩, hproject, rfl, rfl⟩

theorem length_encodeSetRoot {root : SetRoot} {bytes : Bytes}
    (h : encodeSetRoot root = .ok bytes) : bytes.length = rootBytes := by
  obtain ⟨hslots, rfl⟩ := encodeSetRoot_eq_ok.mp h
  have hmagic : rootMagic.length = 8 := rfl
  simp only [List.length_append, hmagic, root.projectId.property, length_writer_u32,
    length_writer_u64, length_flatMap_encodeSlot, hslots, rootBytes, rootHeaderBytes]
  omega

theorem loadSetRoot_eq_ok {id : ObjectId} {root : SetRoot} :
    store.loadSetRoot blake3 id projectId = .ok root ↔
      ∃ bytes, encodeSetRoot root = .ok bytes ∧ store.setRoots id = some bytes ∧
        setRootId blake3 bytes = id ∧ root.SlotsValid ∧ root.projectId = projectId := by
  simp only [InventoryStore.loadSetRoot, except_bind_eq_ok, readBytesBounded_eq_ok,
    except_guard_eq_ok, except_pure_eq_ok, decodeSetRoot_eq_ok, ne_eq, not_not]
  constructor
  · rintro ⟨bytes, ⟨hbytes, -⟩, -, hid, _, ⟨hencode, hvalid⟩, hproject, rfl⟩
    exact ⟨bytes, hencode, hbytes, hid, hvalid, hproject⟩
  · rintro ⟨bytes, hencode, hbytes, hid, hvalid, hproject⟩
    have hlength := length_encodeSetRoot hencode
    exact ⟨bytes, ⟨hbytes, hlength.le⟩, hlength, hid, root, ⟨hencode, hvalid⟩, hproject, rfl⟩

theorem loadSetLeaf_eq_ok {id : ObjectId} {expectedPrefix : UInt8} {leaf : SetLeaf} :
    store.loadSetLeaf blake3 id projectId expectedPrefix = .ok leaf ↔
      ∃ bytes, encodeSetLeaf leaf = .ok bytes ∧ store.setLeaves id = some bytes ∧
        bytes.length ≤ maxLeafBytes ∧ setLeafId blake3 bytes = id ∧
        leaf.projectId = projectId ∧ leaf.idPrefix = expectedPrefix := by
  simp only [InventoryStore.loadSetLeaf, except_bind_eq_ok, readBytesBounded_eq_ok,
    except_guard_eq_ok, except_pure_eq_ok, decodeSetLeaf_eq_ok, ne_eq, not_not, not_or]
  constructor
  · rintro ⟨bytes, ⟨hbytes, hlimit⟩, hid, _, hencode, ⟨hproject, hbyte⟩, rfl⟩
    exact ⟨bytes, hencode, hbytes, hlimit, hid, hproject, hbyte⟩
  · rintro ⟨bytes, hencode, hbytes, hlimit, hid, hproject, hbyte⟩
    exact ⟨bytes, ⟨hbytes, hlimit⟩, hid, leaf, hencode, ⟨hproject, hbyte⟩, rfl⟩

theorem loadSlotLeaf_eq_ok {reference : LeafRef} {idPrefix : UInt8} {leaf : SetLeaf} :
    store.loadSlotLeaf blake3 projectId reference idPrefix = .ok leaf ↔
      store.loadSetLeaf blake3 reference.id projectId idPrefix = .ok leaf ∧
        leaf.ids.length = reference.count.toNat := by
  simp only [InventoryStore.loadSlotLeaf, except_bind_eq_ok, except_guard_eq_ok,
    except_pure_eq_ok, ne_eq, not_not]
  constructor
  · rintro ⟨_, hload, hcount, rfl⟩
    exact ⟨hload, hcount⟩
  · rintro ⟨hload, hcount⟩
    exact ⟨leaf, hload, hcount, rfl⟩

theorem loadStateRoot_eq_ok {state : InventoryState} {root : SetRoot} :
    store.loadStateRoot blake3 projectId state = .ok root ↔
      store.loadSetRoot blake3 state.setRoot projectId = .ok root ∧
        root.count = state.count := by
  simp only [InventoryStore.loadStateRoot, except_bind_eq_ok, except_guard_eq_ok,
    except_pure_eq_ok, ne_eq, not_not]
  constructor
  · rintro ⟨_, hload, hcount, rfl⟩
    exact ⟨hload, hcount⟩
  · rintro ⟨hload, hcount⟩
    exact ⟨root, hload, hcount, rfl⟩

theorem inventoryHead_eq_ok {head : InventoryHead} :
    store.inventoryHead blake3 projectId = .ok head ↔
      ∃ bytes, store.head = some bytes ∧ bytes.length ≤ headBytesMax ∧
        ∃ id, parseHead store.inventoryHeadPath bytes = .ok id ∧
          store.loadState blake3 id projectId = .ok head := by
  simp only [InventoryStore.inventoryHead, except_bind_eq_ok, readBytesBounded_eq_ok, and_assoc]

theorem inventoryHead_withHead (id : ObjectId) :
    (store.withHead id).inventoryHead blake3 projectId =
      (store.withHead id).loadState blake3 id projectId := by
  have hread : SnapshotRepository.readBytesBounded (store.withHead id).inventoryHeadPath
      (store.withHead id).head headBytesMax = .ok (headBytes id) :=
    readBytesBounded_eq_ok.mpr ⟨rfl, (length_headBytes id).le⟩
  rw [InventoryStore.inventoryHead, hread, except_bind_ok, parseHead_headBytes, except_bind_ok]

/-! What the writes leave alone. -/

@[simp] theorem inventoryHead_withSetLeaf (bytes : Bytes) :
    (store.withSetLeaf blake3 bytes).inventoryHead blake3 projectId =
      store.inventoryHead blake3 projectId := rfl

@[simp] theorem inventoryHead_withSetRoot (bytes : Bytes) :
    (store.withSetRoot blake3 bytes).inventoryHead blake3 projectId =
      store.inventoryHead blake3 projectId := rfl

theorem loadState_withState_of_ne {bytes : Bytes} {id : ObjectId}
    (h : id ≠ stateId blake3 bytes) :
    (store.withState blake3 bytes).loadState blake3 id projectId =
      store.loadState blake3 id projectId := by
  have hsame : (store.withState blake3 bytes).states id = store.states id :=
    Function.update_of_ne h _ _
  rw [InventoryStore.loadState, hsame]
  rfl

/-- Storing a state other than the current one does not change the head. -/
theorem inventoryHead_withState {bytes : Bytes} {head : InventoryHead}
    (hhead : store.inventoryHead blake3 projectId = .ok head)
    (h : head.id ≠ stateId blake3 bytes) :
    (store.withState blake3 bytes).inventoryHead blake3 projectId = .ok head := by
  obtain ⟨stored, hstored, hlength, id, hparse, hload⟩ := inventoryHead_eq_ok.mp hhead
  refine inventoryHead_eq_ok.mpr ⟨stored, hstored, hlength, id, hparse, ?_⟩
  rw [loadState_withState_of_ne ((loadState_eq_ok.mp hload).1 ▸ h)]
  exact hload

/-- The state that was just stored as the head is read back when its shape is valid. -/
theorem inventoryHead_committed {state : InventoryState} (hshape : state.validShape = true)
    (hproject : state.projectId = projectId) :
    ((store.withState blake3 (encodeState state)).withHead
        (stateId blake3 (encodeState state))).inventoryHead blake3 projectId =
      .ok ⟨stateId blake3 (encodeState state), state⟩ := by
  rw [inventoryHead_withHead, loadState_eq_ok]
  exact ⟨rfl, Function.update_self _ _ _, rfl, hshape, hproject⟩

/-! Mutating the set. -/

theorem mutateIds_valid {operation : InventoryOperation} {ids changed : List SnapshotId}
    {snapshotId : SnapshotId} (hsorted : ids.Pairwise (· < ·))
    (h : mutateIds operation ids snapshotId = .ok changed) :
    changed.Pairwise (· < ·) ∧ ∀ id ∈ changed, id = snapshotId ∨ id ∈ ids := by
  unfold mutateIds at h
  by_cases hmem : snapshotId ∈ ids
  · obtain ⟨index, hsearch, hincreasing, hmembers⟩ := eraseIdx_binarySearch hsorted hmem
    rw [hsearch] at h
    cases operation with
    | remove =>
        cases h
        exact ⟨hincreasing, fun id hid => Or.inr ((hmembers id).mp hid).2⟩
    | add => cases h
    | initialization => cases h
  · obtain ⟨index, hsearch, hincreasing, hmembers⟩ :=
      insertIdx_binarySearch hsorted snapshotId hmem
    rw [hsearch] at h
    cases operation with
    | add =>
        cases h
        exact ⟨hincreasing, fun id hid => (hmembers id).mp hid⟩
    | remove => cases h
    | initialization => cases h

theorem mutateIds_operation {operation : InventoryOperation} {ids changed : List SnapshotId}
    {snapshotId : SnapshotId} (h : mutateIds operation ids snapshotId = .ok changed) :
    operation = .add ∨ operation = .remove := by
  cases operation with
  | add => exact Or.inl rfl
  | remove => exact Or.inr rfl
  | initialization =>
      rw [mutateIds] at h
      cases h

theorem leafBefore_valid {root : SetRoot} {idPrefix : UInt8} {leaf : SetLeaf}
    (h : store.leafBefore blake3 projectId root idPrefix = .ok leaf) :
    leaf.projectId = projectId ∧ leaf.idPrefix = idPrefix ∧ leaf.ids.Pairwise (· < ·) ∧
      ∀ id ∈ leaf.ids, id.firstByte = idPrefix := by
  unfold InventoryStore.leafBefore at h
  rcases hslot : root.slot idPrefix with _ | reference
  · rw [hslot] at h
    cases h
    exact ⟨rfl, rfl, .nil, by simp⟩
  · rw [hslot] at h
    obtain ⟨hload, -⟩ := loadSlotLeaf_eq_ok.mp h
    obtain ⟨bytes, hencode, -, -, -, hproject, rfl⟩ := loadSetLeaf_eq_ok.mp hload
    obtain ⟨hvalid, -⟩ := encodeSetLeaf_eq_ok.mp hencode
    exact ⟨hproject, rfl, hvalid.increasing, hvalid.firstByte⟩

theorem mutatedSet_eq_ok {state : InventoryState} {operation : InventoryOperation}
    {snapshotId : SnapshotId} {root : SetRoot} {leaf : SetLeaf} {count : UInt64} :
    store.mutatedSet blake3 projectId state operation snapshotId = .ok (root, leaf, count) ↔
      store.loadStateRoot blake3 projectId state = .ok root ∧
        ∃ before, store.leafBefore blake3 projectId root snapshotId.firstByte = .ok before ∧
          ∃ ids, mutateIds operation before.ids snapshotId = .ok ids ∧
            mutateCount operation state.count = .ok count ∧ { before with ids } = leaf := by
  simp only [InventoryStore.mutatedSet, except_bind_eq_ok, except_pure_eq_ok, Prod.mk.injEq]
  constructor
  · rintro ⟨_, hroot, before, hbefore, ids, hids, _, hcount, rfl, hleaf, rfl⟩
    exact ⟨hroot, before, hbefore, ids, hids, hcount, hleaf⟩
  · rintro ⟨hroot, before, hbefore, ids, hids, hcount, hleaf⟩
    exact ⟨root, hroot, before, hbefore, ids, hids, count, hcount, rfl, hleaf, rfl⟩

/-- How a leaf is stored: not at all when it is empty. -/
def StoredLeaf (leaf : SetLeaf) (leafBytes : Option Bytes) : Prop :=
  match leafBytes with
  | none => leaf.ids = []
  | some bytes => encodeSetLeaf leaf = .ok bytes

def leafSlot (blake3 : Bytes → Digest32) (leaf : SetLeaf) (leafBytes : Option Bytes) :
    Option LeafRef :=
  leafBytes.map fun bytes => ⟨setLeafId blake3 bytes, UInt32.ofNat leaf.ids.length⟩

/-- A mutated set with the files that hold it. -/
structure Mutation (blake3 : Bytes → Digest32) (store : InventoryStore) (projectId : ProjectId)
    (state : InventoryState) (operation : InventoryOperation) (snapshotId : SnapshotId) where
  root : SetRoot
  leaf : SetLeaf
  count : UInt64
  leafBytes : Option Bytes
  rootBytes : Bytes
  mutated : store.mutatedSet blake3 projectId state operation snapshotId = .ok (root, leaf, count)
  leafStored : StoredLeaf leaf leafBytes
  rootStored : encodeSetRoot { root with
    count, leaves := root.leaves.set snapshotId.firstByte.toNat (leafSlot blake3 leaf leafBytes) } =
      .ok rootBytes

namespace Mutation

variable {state : InventoryState} {operation : InventoryOperation} {snapshotId : SnapshotId}

def newRoot (mutation : Mutation blake3 store projectId state operation snapshotId) : SetRoot :=
  { mutation.root with
    count := mutation.count
    leaves := mutation.root.leaves.set snapshotId.firstByte.toNat
      (leafSlot blake3 mutation.leaf mutation.leafBytes) }

/-- The store once the leaf is in it. -/
def withLeaf (mutation : Mutation blake3 store projectId state operation snapshotId) :
    InventoryStore :=
  match mutation.leafBytes with
  | none => store
  | some bytes => store.withSetLeaf blake3 bytes

def after (mutation : Mutation blake3 store projectId state operation snapshotId) :
    InventoryStore :=
  mutation.withLeaf.withSetRoot blake3 mutation.rootBytes

def trace (mutation : Mutation blake3 store projectId state operation snapshotId) :
    List InventoryStore :=
  (mutation.leafBytes.map (store.withSetLeaf blake3)).toList ++ [mutation.after]

end Mutation

theorem storeSetRoot_run {root : SetRoot} {bytes : Bytes} (h : encodeSetRoot root = .ok bytes) :
    (storeSetRoot blake3 root).run store =
      ([store.withSetRoot blake3 bytes], .ok (setRootId blake3 bytes)) := by
  rw [storeSetRoot, Durable.lift_bind_run, h]
  rfl

theorem storeSlotLeaf_run {leaf : SetLeaf} {leafBytes : Option Bytes}
    (h : StoredLeaf leaf leafBytes) :
    (storeSlotLeaf blake3 leaf).run store =
      ((leafBytes.map (store.withSetLeaf blake3)).toList, .ok (leafSlot blake3 leaf leafBytes)) := by
  cases leafBytes with
  | none =>
      rw [storeSlotLeaf, if_pos (show leaf.ids = [] from h)]
      rfl
  | some bytes =>
      have hencode : encodeSetLeaf leaf = .ok bytes := h
      obtain ⟨hvalid, hlimit, -⟩ := encodeSetLeaf_eq_ok.mp hencode
      have hstore : (storeSetLeaf blake3 leaf).run store =
          ([store.withSetLeaf blake3 bytes], .ok (setLeafId blake3 bytes)) := by
        rw [storeSetLeaf, Durable.lift_bind_run, hencode]
        rfl
      rw [storeSlotLeaf, if_neg hvalid.nonempty, if_neg (not_le.mpr hlimit),
        Durable.bind_run_ok hstore]
      rfl

/-- A mutation stores the leaf and then the set root. -/
theorem Mutation.run {state : InventoryState} {operation : InventoryOperation}
    {snapshotId : SnapshotId}
    (mutation : Mutation blake3 store projectId state operation snapshotId) :
    (mutateSet blake3 projectId state operation snapshotId).run store =
      (mutation.trace, .ok (setRootId blake3 mutation.rootBytes, mutation.count)) := by
  have hlast : Durable.last store (mutation.leafBytes.map (store.withSetLeaf blake3)).toList =
      mutation.withLeaf := by
    rw [Mutation.withLeaf]
    cases mutation.leafBytes <;> rfl
  rw [mutateSet, Durable.inspect_bind_run, mutation.mutated]
  change (storeSlotLeaf blake3 mutation.leaf >>= _).run store = _
  rw [Durable.bind_run_ok (storeSlotLeaf_run mutation.leafStored), hlast,
    Durable.bind_run_ok (storeSetRoot_run mutation.rootStored), Durable.pure_run, List.append_nil]
  rfl

/-- A mutated leaf that fits its count is stored. -/
theorem exists_mutation {state : InventoryState} {operation : InventoryOperation}
    {snapshotId : SnapshotId} {root : SetRoot} {leaf : SetLeaf} {count : UInt64}
    (h : store.mutatedSet blake3 projectId state operation snapshotId = .ok (root, leaf, count))
    (hlimit : leaf.ids.length < 2 ^ 32) :
    ∃ mutation : Mutation blake3 store projectId state operation snapshotId,
      mutation.root = root ∧ mutation.leaf = leaf ∧ mutation.count = count := by
  obtain ⟨hroot, before, hbefore, ids, hids, -, hleaf⟩ := mutatedSet_eq_ok.mp h
  obtain ⟨hproject, hbyte, hsorted, hfirst⟩ := leafBefore_valid hbefore
  obtain ⟨hchanged, hmembers⟩ := mutateIds_valid hsorted hids
  subst hleaf
  have hslots : ∀ slot, ∃ bytes, encodeSetRoot { root with
      count, leaves := root.leaves.set snapshotId.firstByte.toNat slot } = .ok bytes := by
    intro slot
    obtain ⟨stored, hstored, -⟩ := loadSetRoot_eq_ok.mp (loadStateRoot_eq_ok.mp hroot).1
    have hlength := (encodeSetRoot_eq_ok.mp hstored).1
    exact ⟨_, encodeSetRoot_eq_ok.mpr ⟨by rw [List.length_set, hlength], rfl⟩⟩
  by_cases hempty : ids = []
  · obtain ⟨rootBytes, hrootBytes⟩ := hslots none
    exact ⟨⟨root, { before with ids }, count, none, rootBytes, h, hempty, hrootBytes⟩, rfl, rfl,
      rfl⟩
  · have hvalid : SetLeaf.IdsValid { before with ids } := by
      refine ⟨hempty, hchanged, fun id hid => ?_⟩
      rcases hmembers id hid with rfl | hmem
      · exact hbyte.symm
      · exact (hfirst id hmem).trans hbyte.symm
    have hencode := encodeSetLeaf_eq_ok.mpr ⟨hvalid, hlimit, rfl⟩
    obtain ⟨rootBytes, hrootBytes⟩ := hslots (leafSlot blake3 { before with ids } (some _))
    exact ⟨⟨root, { before with ids }, count, some _, rootBytes, h, hencode, hrootBytes⟩, rfl, rfl,
      rfl⟩

/-- What a mutation of a set does: it fails before it stores anything, or it stores the
leaf and the set root. -/
theorem mutateSet_cases (state : InventoryState) (operation : InventoryOperation)
    (snapshotId : SnapshotId) :
    (∃ error, (mutateSet blake3 projectId state operation snapshotId).run store =
        ([], .error error)) ∨
      Nonempty (Mutation blake3 store projectId state operation snapshotId) := by
  rcases hmutated : store.mutatedSet blake3 projectId state operation snapshotId with
    error | ⟨root, leaf, count⟩
  · refine Or.inl ⟨error, ?_⟩
    rw [mutateSet, Durable.inspect_bind_run, hmutated]
  · by_cases hlimit : leaf.ids.length < 2 ^ 32
    · obtain ⟨mutation, -⟩ := exists_mutation hmutated hlimit
      exact Or.inr ⟨mutation⟩
    · have hne : leaf.ids ≠ [] := by
        intro hempty
        rw [hempty] at hlimit
        exact hlimit (by decide)
      have hfails : ∃ error, (storeSlotLeaf blake3 leaf).run store = ([], .error error) := by
        rw [storeSlotLeaf, if_neg hne, if_pos (not_lt.mp hlimit)]
        exact ⟨_, rfl⟩
      obtain ⟨error, herror⟩ := hfails
      refine Or.inl ⟨error, ?_⟩
      rw [mutateSet, Durable.inspect_bind_run, hmutated]
      exact Durable.bind_run_error herror

theorem Mutation.operation_eq {state : InventoryState} {operation : InventoryOperation}
    {snapshotId : SnapshotId}
    (mutation : Mutation blake3 store projectId state operation snapshotId) :
    operation = .add ∨ operation = .remove := by
  obtain ⟨-, _, -, _, hids, -⟩ := mutatedSet_eq_ok.mp mutation.mutated
  exact mutateIds_operation hids

theorem checkedAdd_one_eq_some {value result : UInt64} :
    checkedAdd value 1 = some result ↔ value.toNat + 1 = result.toNat :=
  checkedAdd_eq_some

/-- An Add leaves a set that is not empty. -/
theorem Mutation.count_pos {state : InventoryState} {snapshotId : SnapshotId}
    (mutation : Mutation blake3 store projectId state .add snapshotId) : 0 < mutation.count := by
  obtain ⟨-, _, -, _, -, hcount, -⟩ := mutatedSet_eq_ok.mp mutation.mutated
  rw [mutateCount, orError_eq_ok, checkedAdd_one_eq_some] at hcount
  rw [UInt64.lt_iff_toNat_lt, ← hcount]
  exact Nat.succ_pos _

/-! Transitions. -/

/-- The store with a new state in it, before the head is replaced. -/
def InventoryStore.withNewState (blake3 : Bytes → Digest32) (store : InventoryStore)
    (state : InventoryState) : InventoryStore :=
  store.withState blake3 (encodeState state)

/-- The store once the new state is its head. -/
def InventoryStore.withNewHead (blake3 : Bytes → Digest32) (store : InventoryStore)
    (state : InventoryState) : InventoryStore :=
  (store.withNewState blake3 state).withHead (stateId blake3 (encodeState state))

/-- What the commit of a state of valid shape does, from the current head. -/
def commitOutcome (blake3 : Bytes → Digest32) (store : InventoryStore) (projectId : ProjectId)
    (expectedId : ObjectId) (state : InventoryState) :
    List InventoryStore × CheckPoResult String :=
  let newId := stateId blake3 (encodeState state)
  match store.inventoryHead blake3 projectId with
  | .error error => ([], .error error)
  | .ok current =>
      if current.id = newId then
        ([], if current.state = state then .ok newId.toHex
          else .error (.corruption
            "snapshot inventory replay state does not match its operation"))
      else if current.id ≠ expectedId then
        ([], .error (.workingTreeChanged store.inventoryHeadPath))
      else ([store.withNewState blake3 state, store.withNewHead blake3 state], .ok newId.toHex)

theorem commitState_run {expectedId : ObjectId} {state : InventoryState}
    (hshape : state.validShape = true) (hproject : state.projectId = projectId) :
    (commitState blake3 projectId expectedId state).run store =
      commitOutcome blake3 store projectId expectedId state := by
  rw [commitState, commitOutcome, Durable.inspect_bind_run]
  rcases hhead : store.inventoryHead blake3 projectId with error | current
  · rfl
  · by_cases hreplay : current.id = stateId blake3 (encodeState state)
    · simp only [if_pos hreplay]
      by_cases hstate : current.state = state
      · simp only [hstate, ne_eq, not_true_eq_false, if_false, if_true]
        rfl
      · simp only [hstate, ne_eq, not_false_eq_true, if_false, if_true]
        rfl
    · simp only [if_neg hreplay]
      by_cases hstale : current.id ≠ expectedId
      · simp only [if_pos hstale]
        rfl
      · have hagain : (store.withState blake3 (encodeState state)).inventoryHead blake3 projectId =
            .ok current := inventoryHead_withState hhead hreplay
        have hcommitted := @inventoryHead_committed blake3 store projectId state hshape hproject
        have hstore : (storeState blake3 state).run store =
            ([store.withNewState blake3 state], .ok (stateId blake3 (encodeState state))) := rfl
        simp only [if_neg hstale]
        rw [Durable.bind_run_ok hstore, Durable.last_singleton, Durable.inspect_bind_run,
          InventoryStore.withNewState, hagain]
        simp only [if_neg hstale]
        rw [writeHead, Durable.write_bind_run, Durable.inspect_bind_run, hcommitted]
        simp only [ne_eq, not_true_eq_false, if_false]
        rfl

/-- A transition whose expected state is there, with what it stores. -/
structure Transition (blake3 : Bytes → Digest32) (store : InventoryStore) (projectId : ProjectId)
    (operation : InventoryOperation) (snapshotId : SnapshotId)
    (expectedHeadId operationId : String) where
  expected : InventoryHead
  named : operationId ≠ ""
  parsed : parseLowerHexId "object" expectedHeadId = .ok expected.id
  loaded : store.loadState blake3 expected.id projectId = .ok expected
  mutation : Mutation blake3 store projectId expected.state operation snapshotId
  generation : UInt64
  generation_eq : checkedAdd expected.state.generation 1 = some generation

namespace Transition

variable {operation : InventoryOperation} {snapshotId : SnapshotId}
variable {expectedHeadId operationId : String}

def state (transition : Transition blake3 store projectId operation snapshotId expectedHeadId
    operationId) : InventoryState where
  projectId := projectId
  generation := transition.generation
  count := transition.mutation.count
  operation := operation
  parent := some transition.expected.id
  snapshotId := some snapshotId
  operationId := inventoryOperationId blake3 operationId
  setRoot := setRootId blake3 transition.mutation.rootBytes

def newId (transition : Transition blake3 store projectId operation snapshotId expectedHeadId
    operationId) : ObjectId :=
  stateId blake3 (encodeState transition.state)

theorem state_validShape (transition : Transition blake3 store projectId operation snapshotId
    expectedHeadId operationId) (hid : inventoryOperationId blake3 operationId ≠ zeroDigest) :
    transition.state.validShape = true := by
  have hgeneration : 0 < transition.generation := by
    rw [UInt64.lt_iff_toNat_lt, ← checkedAdd_one_eq_some.mp transition.generation_eq]
    exact Nat.succ_pos _
  rcases transition.mutation.operation_eq with rfl | rfl
  · have hcount := transition.mutation.count_pos
    simp [InventoryState.validShape, state, hgeneration, hcount, hid]
  · simp [InventoryState.validShape, state, hgeneration, hid]

end Transition

theorem Mutation.inventoryHead_after {state : InventoryState} {operation : InventoryOperation}
    {snapshotId : SnapshotId}
    (mutation : Mutation blake3 store projectId state operation snapshotId) :
    mutation.after.inventoryHead blake3 projectId = store.inventoryHead blake3 projectId := by
  rw [Mutation.after, inventoryHead_withSetRoot, Mutation.withLeaf]
  cases mutation.leafBytes with
  | none => rfl
  | some bytes => exact inventoryHead_withSetLeaf bytes

theorem Mutation.last_trace {state : InventoryState} {operation : InventoryOperation}
    {snapshotId : SnapshotId}
    (mutation : Mutation blake3 store projectId state operation snapshotId) (before : InventoryStore) :
    Durable.last before mutation.trace = mutation.after := by
  rw [Mutation.trace, Durable.last_append, Durable.last_singleton]

/-- A transition stores its set and then commits its state. -/
theorem Transition.run {operation : InventoryOperation} {snapshotId : SnapshotId}
    {expectedHeadId operationId : String}
    (transition : Transition blake3 store projectId operation snapshotId expectedHeadId
      operationId) (hid : inventoryOperationId blake3 operationId ≠ zeroDigest) :
    (transitionInventory blake3 projectId operation snapshotId expectedHeadId operationId).run
      store =
        (transition.mutation.trace ++ (commitOutcome blake3 transition.mutation.after projectId
            transition.expected.id transition.state).1,
          (commitOutcome blake3 transition.mutation.after projectId transition.expected.id
            transition.state).2) := by
  rw [transitionInventory, if_neg transition.named, Durable.lift_bind_run, transition.parsed]
  change (Durable.inspect _ >>= _).run store = _
  rw [Durable.inspect_bind_run, transition.loaded]
  change (mutateSet _ _ _ _ _ >>= _).run store = _
  rw [Durable.bind_run_ok transition.mutation.run, transition.mutation.last_trace]
  simp only [Durable.lift_bind_run, transition.generation_eq, orError]
  have hcommit := @commitState_run blake3 transition.mutation.after projectId
    transition.expected.id transition.state (transition.state_validShape hid) rfl
  rw [← hcommit]
  rfl

/-- What a transition can do: it fails before it stores anything, it fails once its set
is stored, or it is a transition whose expected state is there. -/
theorem transitionInventory_cases (operation : InventoryOperation) (snapshotId : SnapshotId)
    (expectedHeadId operationId : String) :
    (∃ error, (transitionInventory blake3 projectId operation snapshotId expectedHeadId
        operationId).run store = ([], .error error)) ∨
      (∃ expected error, ∃ mutation : Mutation blake3 store projectId expected.state operation
          snapshotId, parseLowerHexId "object" expectedHeadId = .ok expected.id ∧
            store.loadState blake3 expected.id projectId = .ok expected ∧
            (transitionInventory blake3 projectId operation snapshotId expectedHeadId
              operationId).run store = (mutation.trace, .error error)) ∨
      Nonempty (Transition blake3 store projectId operation snapshotId expectedHeadId
        operationId) := by
  rw [transitionInventory]
  by_cases hnamed : operationId = ""
  · rw [if_pos hnamed]
    exact Or.inl ⟨_, rfl⟩
  · rw [if_neg hnamed, Durable.lift_bind_run]
    rcases hparsed : parseLowerHexId "object" expectedHeadId with error | expectedId
    · exact Or.inl ⟨_, rfl⟩
    · simp only [Durable.inspect_bind_run]
      rcases hloaded : store.loadState blake3 expectedId projectId with error | expected
      · exact Or.inl ⟨error, rfl⟩
      · obtain rfl := (loadState_eq_ok.mp hloaded).1
        rcases @mutateSet_cases blake3 store projectId expected.state operation snapshotId with
          ⟨error, hrun⟩ | ⟨⟨mutation⟩⟩
        · simp only [Durable.bind_run_error hrun]
          exact Or.inl ⟨error, rfl⟩
        · rcases hgeneration : checkedAdd expected.state.generation 1 with _ | generation
          · simp only [Durable.bind_run_ok mutation.run, Durable.lift_bind_run, hgeneration,
              orError, List.append_nil]
            exact Or.inr (Or.inl ⟨expected, _, mutation, rfl, hloaded, rfl⟩)
          · exact Or.inr (Or.inr ⟨⟨expected, hnamed, hparsed, hloaded, mutation, generation,
              hgeneration⟩⟩)

/-! The first state. -/

theorem encode_emptySetRoot (projectId : ProjectId) :
    ∃ bytes, encodeSetRoot (emptySetRoot projectId) = .ok bytes :=
  ⟨_, encodeSetRoot_eq_ok.mpr ⟨List.length_replicate, rfl⟩⟩

/-- Starting an inventory in an empty repository. -/
theorem initializeSnapshotInventory_fresh (hhead : store.head = none) {bytes : Bytes}
    (hbytes : encodeSetRoot (emptySetRoot projectId) = .ok bytes) :
    (initializeSnapshotInventory blake3 projectId []).run store =
      ([store.withSetRoot blake3 bytes,
        (store.withSetRoot blake3 bytes).withNewState blake3
          (firstState projectId (setRootId blake3 bytes)),
        (store.withSetRoot blake3 bytes).withNewHead blake3
          (firstState projectId (setRootId blake3 bytes))], .ok ()) := by
  have hroot := @storeSetRoot_run blake3 store (emptySetRoot projectId) bytes hbytes
  have hstate : (storeState blake3 (firstState projectId (setRootId blake3 bytes))).run
      (store.withSetRoot blake3 bytes) =
        ([(store.withSetRoot blake3 bytes).withNewState blake3
          (firstState projectId (setRootId blake3 bytes))],
          .ok (stateId blake3 (encodeState (firstState projectId (setRootId blake3 bytes))))) :=
    rfl
  rw [initializeSnapshotInventory, Durable.inspect_bind_run, hhead]
  simp only [ne_eq, not_true_eq_false, if_false]
  rw [Durable.bind_run_ok hroot, Durable.last_singleton, Durable.bind_run_ok hstate]
  rfl

/-- What starting an inventory does: where there is a head it stores nothing, and
otherwise it fails or stores the empty set root, the first state and the head. -/
theorem initializeSnapshotInventory_cases (snapshotNames : List String) {bytes : Bytes}
    (hbytes : encodeSetRoot (emptySetRoot projectId) = .ok bytes) :
    (store.head ≠ none ∧
        ((initializeSnapshotInventory blake3 projectId snapshotNames).run store).1 = []) ∨
      (∃ error, (initializeSnapshotInventory blake3 projectId snapshotNames).run store =
        ([], .error error)) ∨
      store.head = none ∧
      (initializeSnapshotInventory blake3 projectId snapshotNames).run store =
        ([store.withSetRoot blake3 bytes,
          (store.withSetRoot blake3 bytes).withNewState blake3
            (firstState projectId (setRootId blake3 bytes)),
          (store.withSetRoot blake3 bytes).withNewHead blake3
            (firstState projectId (setRootId blake3 bytes))], .ok ()) := by
  rcases hhead : store.head with _ | head
  · by_cases hnames : snapshotNames = []
    · subst hnames
      exact Or.inr (Or.inr ⟨rfl, initializeSnapshotInventory_fresh hhead hbytes⟩)
    · rw [initializeSnapshotInventory, Durable.inspect_bind_run, hhead]
      simp only [ne_eq, hnames, not_false_eq_true, if_true]
      exact Or.inr (Or.inl ⟨_, rfl⟩)
  · refine Or.inl ⟨nofun, ?_⟩
    rw [initializeSnapshotInventory, Durable.inspect_bind_run, hhead]
    simp only [Durable.inspect_bind_run]
    rcases store.inventoryHead blake3 projectId with error | current
    · rfl
    · rfl

end Hash

end CheckPo
