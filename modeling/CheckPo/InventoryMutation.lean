/-
What a mutation does to the set that a state denotes: content-addressed writes keep
what could be read, and the new set is readable when the changed leaf is not too long.
-/
import CheckPo.InventorySets
import CheckPo.InventoryWritten

namespace CheckPo

section Hash

variable {blake3 : Bytes → Digest32} {used : Set Bytes} {store before after : InventoryStore}
variable {projectId : ProjectId}

/-! What stays readable. -/

/-- Everything that could be read can still be read. -/
structure Keeps (blake3 : Bytes → Digest32) (before after : InventoryStore) : Prop where
  states : ∀ {id projectId head}, before.loadState blake3 id projectId = .ok head →
    after.loadState blake3 id projectId = .ok head
  setRoots : ∀ {id projectId root}, before.loadSetRoot blake3 id projectId = .ok root →
    after.loadSetRoot blake3 id projectId = .ok root
  setLeaves : ∀ {id projectId idPrefix leaf},
    before.loadSetLeaf blake3 id projectId idPrefix = .ok leaf →
      after.loadSetLeaf blake3 id projectId idPrefix = .ok leaf

namespace Keeps

theorem refl (store : InventoryStore) : Keeps blake3 store store where
  states := id
  setRoots := id
  setLeaves := id

theorem trans {middle : InventoryStore} (hfirst : Keeps blake3 before middle)
    (hsecond : Keeps blake3 middle after) : Keeps blake3 before after where
  states h := hsecond.states (hfirst.states h)
  setRoots h := hsecond.setRoots (hfirst.setRoots h)
  setLeaves h := hsecond.setLeaves (hfirst.setLeaves h)

theorem withHead (id : ObjectId) : Keeps blake3 store (store.withHead id) where
  states h := h
  setRoots h := h
  setLeaves h := h

/-- A file is overwritten only by the bytes that it holds. -/
theorem update_content {files : ObjectId → Option Bytes} {domain bytes stored : Bytes}
    {id : ObjectId} (hsafe : HashSafe blake3 used) (hbytes : domain ++ bytes ∈ used)
    (hstored : domain ++ stored ∈ used) (hid : domainHash blake3 domain stored = id)
    (h : files id = some stored) :
    Function.update files (domainHash blake3 domain bytes) (some bytes) id = some stored := by
  by_cases heq : id = domainHash blake3 domain bytes
  · have hcontent : domain ++ stored = domain ++ bytes :=
      hsafe.injective _ hstored _ hbytes (hid.trans heq)
    rw [List.append_cancel_left hcontent, heq, Function.update_self]
  · rw [Function.update_of_ne heq, h]

theorem withState {bytes : Bytes} (hsafe : HashSafe blake3 used) (hbefore : Within used store)
    (hafter : Within used (store.withState blake3 bytes)) :
    Keeps blake3 store (store.withState blake3 bytes) where
  states h := by
    obtain ⟨hid, hstored, hdigest, hshape⟩ := loadState_eq_ok.mp h
    exact loadState_eq_ok.mpr ⟨hid, update_content hsafe
      (hafter.states _ bytes (Function.update_self _ _ _)) (hbefore.states _ _ hstored) hdigest
      hstored, hdigest, hshape⟩
  setRoots h := h
  setLeaves h := h

theorem withSetRoot {bytes : Bytes} (hsafe : HashSafe blake3 used) (hbefore : Within used store)
    (hafter : Within used (store.withSetRoot blake3 bytes)) :
    Keeps blake3 store (store.withSetRoot blake3 bytes) where
  states h := h
  setRoots h := by
    obtain ⟨stored, hencode, hstored, hdigest, hvalid⟩ := loadSetRoot_eq_ok.mp h
    exact loadSetRoot_eq_ok.mpr ⟨stored, hencode, update_content hsafe
      (hafter.setRoots _ bytes (Function.update_self _ _ _)) (hbefore.setRoots _ _ hstored) hdigest
      hstored, hdigest, hvalid⟩
  setLeaves h := h

theorem withSetLeaf {bytes : Bytes} (hsafe : HashSafe blake3 used) (hbefore : Within used store)
    (hafter : Within used (store.withSetLeaf blake3 bytes)) :
    Keeps blake3 store (store.withSetLeaf blake3 bytes) where
  states h := h
  setRoots h := h
  setLeaves h := by
    obtain ⟨stored, hencode, hstored, hlimit, hdigest, hvalid⟩ := loadSetLeaf_eq_ok.mp h
    exact loadSetLeaf_eq_ok.mpr ⟨stored, hencode, update_content hsafe
      (hafter.setLeaves _ bytes (Function.update_self _ _ _)) (hbefore.setLeaves _ _ hstored)
      hdigest hstored, hlimit, hdigest, hvalid⟩

variable {state : InventoryState} {ids : Finset SnapshotId}

theorem slotLeaf (h : Keeps blake3 before after) {reference : LeafRef} {idPrefix : UInt8}
    {leaf : SetLeaf}
    (hload : before.loadSlotLeaf blake3 projectId reference idPrefix = .ok leaf) :
    after.loadSlotLeaf blake3 projectId reference idPrefix = .ok leaf := by
  obtain ⟨hleaf, hcount⟩ := loadSlotLeaf_eq_ok.mp hload
  exact loadSlotLeaf_eq_ok.mpr ⟨h.setLeaves hleaf, hcount⟩

theorem holdsSlot (h : Keeps blake3 before after) {idPrefix : UInt8} {slot : Option LeafRef}
    {leafIds : List SnapshotId}
    (hholds : HoldsSlot blake3 before projectId idPrefix slot leafIds) :
    HoldsSlot blake3 after projectId idPrefix slot leafIds := by
  cases slot with
  | none => exact hholds
  | some reference => exact h.slotLeaf hholds

theorem stateRoot (h : Keeps blake3 before after) {root : SetRoot}
    (hload : before.loadStateRoot blake3 projectId state = .ok root) :
    after.loadStateRoot blake3 projectId state = .ok root := by
  obtain ⟨hroot, hcount⟩ := loadStateRoot_eq_ok.mp hload
  exact loadStateRoot_eq_ok.mpr ⟨h.setRoots hroot, hcount⟩

theorem hasSet (h : Keeps blake3 before after) (hset : HasSet blake3 before projectId state ids) :
    HasSet blake3 after projectId state ids := by
  obtain ⟨root, hroot, hcount, hslots⟩ := hset
  exact ⟨root, h.stateRoot hroot, hcount, fun idPrefix => h.holdsSlot (hslots idPrefix)⟩

end Keeps

/-- A state denotes one set. -/
theorem HasSet.unique {state : InventoryState} {left right : Finset SnapshotId}
    (hleft : HasSet blake3 store projectId state left)
    (hright : HasSet blake3 store projectId state right) : left = right :=
  Except.ok.inj ((loadInventoryIds_eq_ok.mpr hleft).symm.trans (loadInventoryIds_eq_ok.mpr hright))

/-! The operations on sets. -/

/-- What an operation does to a set: adding a member and removing a stranger is refused. -/
def InventoryOperation.apply (operation : InventoryOperation) (ids : Finset SnapshotId)
    (snapshotId : SnapshotId) : Option (Finset SnapshotId) :=
  match operation with
  | .add => if snapshotId ∈ ids then none else some (insert snapshotId ids)
  | .remove => if snapshotId ∈ ids then some (ids.erase snapshotId) else none
  | .initialization => none

variable {operation : InventoryOperation} {ids : Finset SnapshotId} {snapshotId : SnapshotId}

theorem apply_shard_of_ne {changed : Finset SnapshotId} {idPrefix : UInt8}
    (h : operation.apply ids snapshotId = some changed) (hne : snapshotId.firstByte ≠ idPrefix) :
    shard Digest32.firstByte changed idPrefix = shard Digest32.firstByte ids idPrefix := by
  cases operation with
  | add =>
      rw [InventoryOperation.apply] at h
      split_ifs at h
      cases h
      exact shard_insert_of_ne hne
  | remove =>
      rw [InventoryOperation.apply] at h
      split_ifs at h
      cases h
      exact shard_erase_of_ne hne
  | initialization => cases h

/-- The leaf of a set is mutated as the set is. -/
theorem mutateIds_shard_eq_ok {changed : List SnapshotId} :
    mutateIds operation (shard Digest32.firstByte ids snapshotId.firstByte) snapshotId =
        .ok changed ↔
      ∃ after, operation.apply ids snapshotId = some after ∧
        changed = shard Digest32.firstByte after snapshotId.firstByte := by
  by_cases hmem : snapshotId ∈ ids
  · obtain ⟨position, hsearch, herase⟩ := shard_erase Digest32.firstByte hmem
    cases operation with
    | add => simp [mutateIds, InventoryOperation.apply, hsearch, hmem]
    | remove => simp [mutateIds, InventoryOperation.apply, hsearch, hmem, herase, eq_comm]
    | initialization => simp [mutateIds, InventoryOperation.apply]
  · obtain ⟨position, hsearch, hinsert⟩ := shard_insert Digest32.firstByte hmem
    cases operation with
    | add => simp [mutateIds, InventoryOperation.apply, hsearch, hmem, hinsert, eq_comm]
    | remove => simp [mutateIds, InventoryOperation.apply, hsearch, hmem]
    | initialization => simp [mutateIds, InventoryOperation.apply]

theorem checkedSub_one_eq_some {value result : UInt64} :
    checkedSub value 1 = some result ↔ result.toNat + 1 = value.toNat := by
  have hone : (1 : UInt64).toNat = 1 := rfl
  rw [checkedSub]
  split_ifs with hle
  · have hpos := UInt64.le_iff_toNat_le.mp hle
    rw [Option.some.injEq, ← UInt64.toNat_inj, UInt64.toNat_sub_of_le _ _ hle, hone]
    omega
  · rw [UInt64.le_iff_toNat_le, hone] at hle
    constructor
    · intro hnone
      cases hnone
    · omega

/-- The count of a set is mutated as the set is. -/
theorem mutateCount_eq_ok {changed : Finset SnapshotId} {count after : UInt64}
    (h : operation.apply ids snapshotId = some changed) (hcount : count.toNat = ids.card) :
    mutateCount operation count = .ok after ↔ after.toNat = changed.card := by
  cases operation with
  | add =>
      rw [InventoryOperation.apply] at h
      split_ifs at h with hmem
      cases h
      rw [mutateCount, orError_eq_ok, checkedAdd_one_eq_some, hcount,
        Finset.card_insert_of_notMem hmem, eq_comm]
  | remove =>
      rw [InventoryOperation.apply] at h
      split_ifs at h with hmem
      cases h
      rw [mutateCount, orError_eq_ok, checkedSub_one_eq_some, hcount,
        Finset.card_erase_of_mem hmem]
      have hpos := Finset.card_pos.mpr ⟨_, hmem⟩
      omega
  | initialization => cases h

/-! Mutations of a set that can be read. -/

/-- The most ids that a leaf can hold for its file to be read back. -/
def maxLeafIds : Nat := (maxLeafBytes - leafHeaderBytes) / 32

theorem leaf_readable_iff {leaf : SetLeaf} {bytes : Bytes} (h : encodeSetLeaf leaf = .ok bytes) :
    bytes.length ≤ maxLeafBytes ↔ leaf.ids.length ≤ maxLeafIds := by
  rw [length_encodeSetLeaf h, maxLeafIds, maxLeafBytes, leafHeaderBytes]
  omega

variable {state : InventoryState}

/-- A mutation of a set that can be read works out the changed leaf and count. -/
theorem HasSet.mutatedSet_eq_ok (h : HasSet blake3 store projectId state ids) {root : SetRoot}
    {leaf : SetLeaf} {count : UInt64} :
    store.mutatedSet blake3 projectId state operation snapshotId = .ok (root, leaf, count) ↔
      store.loadStateRoot blake3 projectId state = .ok root ∧
        ∃ after, operation.apply ids snapshotId = some after ∧ count.toNat = after.card ∧
          leaf = ⟨projectId, snapshotId.firstByte,
            shard Digest32.firstByte after snapshotId.firstByte⟩ := by
  obtain ⟨setRoot, hroot, hcard, hslots⟩ := h
  have hcount : state.count.toNat = ids.card := by
    rw [← (loadStateRoot_eq_ok.mp hroot).2, hcard]
  rw [CheckPo.mutatedSet_eq_ok, hroot, Except.ok.injEq]
  constructor
  · rintro ⟨rfl, before, hbefore, changed, hchanged, hcountChanged, rfl⟩
    obtain ⟨leafIds, hholds, rfl⟩ := leafBefore_eq_ok.mp hbefore
    obtain rfl := hholds.unique (hslots snapshotId.firstByte)
    obtain ⟨after, hafter, rfl⟩ := mutateIds_shard_eq_ok.mp hchanged
    exact ⟨rfl, after, hafter, (mutateCount_eq_ok hafter hcount).mp hcountChanged, rfl⟩
  · rintro ⟨rfl, after, hafter, hcountAfter, rfl⟩
    exact ⟨rfl, _, leafBefore_eq_ok.mpr ⟨_, hslots _, rfl⟩, _,
      mutateIds_shard_eq_ok.mpr ⟨after, hafter, rfl⟩,
      (mutateCount_eq_ok hafter hcount).mpr hcountAfter, rfl⟩

namespace Mutation

variable (mutation : Mutation blake3 store projectId state operation snapshotId)

theorem keeps_withLeaf (hsafe : HashSafe blake3 used) (hbefore : Within used store)
    (hwithin : ∀ after ∈ mutation.trace, Within used after) :
    Keeps blake3 store mutation.withLeaf ∧ Within used mutation.withLeaf := by
  rw [Mutation.withLeaf]
  rcases hbytes : mutation.leafBytes with _ | bytes
  · exact ⟨.refl store, hbefore⟩
  · have hmem : store.withSetLeaf blake3 bytes ∈ mutation.trace := by
      rw [Mutation.trace, hbytes]
      exact List.mem_cons_self
    exact ⟨.withSetLeaf hsafe hbefore (hwithin _ hmem), hwithin _ hmem⟩

theorem after_mem_trace : mutation.after ∈ mutation.trace :=
  List.mem_append_right _ (List.mem_singleton_self _)

theorem keeps_after (hsafe : HashSafe blake3 used) (hbefore : Within used store)
    (hwithin : ∀ after ∈ mutation.trace, Within used after) :
    Keeps blake3 store mutation.after := by
  obtain ⟨hleaf, hwithinLeaf⟩ := mutation.keeps_withLeaf hsafe hbefore hwithin
  exact hleaf.trans (.withSetRoot hsafe hwithinLeaf (hwithin _ mutation.after_mem_trace))

/-- Every write of a mutation keeps what could be read. -/
theorem keeps_trace (hsafe : HashSafe blake3 used) (hbefore : Within used store)
    (hwithin : ∀ after ∈ mutation.trace, Within used after) :
    ∀ after ∈ mutation.trace, Keeps blake3 store after := by
  intro after hafter
  rw [Mutation.trace, List.mem_append, List.mem_singleton] at hafter
  rcases hafter with hafter | rfl
  · have hleaf := (mutation.keeps_withLeaf hsafe hbefore hwithin).1
    rw [Mutation.withLeaf] at hleaf
    rcases hbytes : mutation.leafBytes with _ | bytes
    · rw [hbytes] at hafter
      cases hafter
    · rw [hbytes] at hafter hleaf
      obtain rfl := List.mem_singleton.mp hafter
      exact hleaf
  · exact mutation.keeps_after hsafe hbefore hwithin

theorem newRoot_loaded (hsafe : HashSafe blake3 used)
    (hwithin : ∀ after ∈ mutation.trace, Within used after) :
    mutation.after.loadSetRoot blake3 (setRootId blake3 mutation.rootBytes) projectId =
      .ok mutation.newRoot := by
  obtain ⟨hroot, -⟩ := CheckPo.mutatedSet_eq_ok.mp mutation.mutated
  obtain ⟨_, _, _, _, _, hproject⟩ := loadSetRoot_eq_ok.mp (loadStateRoot_eq_ok.mp hroot).1
  exact loadSetRoot_eq_ok.mpr ⟨mutation.rootBytes, mutation.rootStored,
    Function.update_self _ _ _, rfl,
    mutation.newRoot_slotsValid (mutation.leafId_ne_zero hsafe.nonzero hwithin), hproject⟩

theorem newRoot_slot {idPrefix : UInt8} :
    mutation.newRoot.slot idPrefix = if snapshotId.firstByte = idPrefix then
      leafSlot blake3 mutation.leaf mutation.leafBytes else mutation.root.slot idPrefix := by
  obtain ⟨hroot, -⟩ := CheckPo.mutatedSet_eq_ok.mp mutation.mutated
  have hlength := length_leaves hroot
  have hfirst : snapshotId.firstByte.toNat < mutation.root.leaves.length := by
    rw [hlength]
    exact UInt8.toNat_lt _
  have hslot : idPrefix.toNat < mutation.root.leaves.length := by
    rw [hlength]
    exact UInt8.toNat_lt _
  rw [slot_eq_getElem idPrefix (by rw [Mutation.newRoot, List.length_set]; exact hslot),
    slot_eq_getElem idPrefix hslot]
  simp only [Mutation.newRoot, List.getElem_set, UInt8.toNat_inj]

/-- The changed leaf is read back exactly when it is not too long. -/
theorem holdsSlot_leaf {leafIds : List SnapshotId}
    (hleaf : mutation.leaf = ⟨projectId, snapshotId.firstByte, leafIds⟩)
    {found : List SnapshotId} :
    HoldsSlot blake3 mutation.after projectId snapshotId.firstByte
        (leafSlot blake3 mutation.leaf mutation.leafBytes) found ↔
      found = leafIds ∧ leafIds.length ≤ maxLeafIds := by
  have hstored := mutation.leafStored
  rcases hbytes : mutation.leafBytes with _ | bytes
  · rw [hbytes, hleaf] at hstored
    obtain rfl : leafIds = [] := hstored
    simp [leafSlot, HoldsSlot]
  · rw [hbytes, hleaf] at hstored
    have hencode : encodeSetLeaf ⟨projectId, snapshotId.firstByte, leafIds⟩ = .ok bytes := hstored
    have hfile : mutation.after.setLeaves (setLeafId blake3 bytes) = some bytes := by
      rw [Mutation.after, Mutation.withLeaf, hbytes]
      exact Function.update_self _ _ _
    have hcount : leafIds.length = (UInt32.ofNat leafIds.length).toNat :=
      (UInt32.toNat_ofNat_of_lt' (encodeSetLeaf_eq_ok.mp hencode).2.1).symm
    rw [hleaf, leafSlot, Option.map_some, HoldsSlot, loadSlotLeaf_eq_ok, loadSetLeaf_eq_ok]
    constructor
    · rintro ⟨⟨stored, hencoded, hread, hlimit, -⟩, -⟩
      rw [hfile] at hread
      cases hread
      have hsame := (decodeSetLeaf_eq_ok.mpr hencoded).symm.trans (decodeSetLeaf_eq_ok.mpr hencode)
      obtain rfl := congrArg SetLeaf.ids (Except.ok.inj hsame)
      exact ⟨rfl, (leaf_readable_iff hencode).mp hlimit⟩
    · rintro ⟨rfl, hlimit⟩
      exact ⟨⟨bytes, hencode, hfile, (leaf_readable_iff hencode).mpr hlimit, rfl, rfl, rfl⟩,
        hcount⟩

/-- The set that a mutation stores is the changed one, and it can be read exactly when
the changed leaf is not too long. -/
theorem hasSet_iff (hsafe : HashSafe blake3 used) (hbefore : Within used store)
    (hwithin : ∀ after ∈ mutation.trace, Within used after)
    (hset : HasSet blake3 store projectId state ids) {newState : InventoryState}
    (hroot : newState.setRoot = setRootId blake3 mutation.rootBytes)
    (hcount : newState.count = mutation.count) {changed : Finset SnapshotId}
    (happly : operation.apply ids snapshotId = some changed) {found : Finset SnapshotId} :
    HasSet blake3 mutation.after projectId newState found ↔
      found = changed ∧ (shard Digest32.firstByte changed snapshotId.firstByte).length ≤
        maxLeafIds := by
  obtain ⟨hload, _, happlied, hcard, hleaf⟩ := hset.mutatedSet_eq_ok.mp mutation.mutated
  obtain rfl := Option.some.inj (happly.symm.trans happlied)
  obtain ⟨root, hloadRoot, -, hslots⟩ := hset
  obtain rfl := Except.ok.inj (hloadRoot.symm.trans hload)
  have hkept : ∀ idPrefix, HoldsSlot blake3 mutation.after projectId idPrefix
      (mutation.root.slot idPrefix) (shard Digest32.firstByte ids idPrefix) := fun idPrefix =>
    (mutation.keeps_after hsafe hbefore hwithin).holdsSlot (hslots idPrefix)
  have hnew : mutation.after.loadStateRoot blake3 projectId newState = .ok mutation.newRoot :=
    loadStateRoot_eq_ok.mpr ⟨hroot ▸ mutation.newRoot_loaded hsafe hwithin, hcount.symm⟩
  constructor
  · rintro ⟨foundRoot, hfound, -, hfoundSlots⟩
    obtain rfl := Except.ok.inj (hnew.symm.trans hfound)
    have hchanged := hfoundSlots snapshotId.firstByte
    rw [newRoot_slot, if_pos rfl, mutation.holdsSlot_leaf hleaf] at hchanged
    refine ⟨eq_of_shards Digest32.firstByte fun idPrefix => ?_, hchanged.2⟩
    by_cases hbyte : snapshotId.firstByte = idPrefix
    · rw [← hbyte]
      exact hchanged.1
    · have hsame := hfoundSlots idPrefix
      rw [newRoot_slot, if_neg hbyte] at hsame
      rw [hsame.unique (hkept idPrefix), apply_shard_of_ne happly hbyte]
  · rintro ⟨rfl, hlimit⟩
    refine ⟨mutation.newRoot, hnew, hcard, fun idPrefix => ?_⟩
    rw [newRoot_slot]
    by_cases hbyte : snapshotId.firstByte = idPrefix
    · rw [if_pos hbyte, ← hbyte]
      exact (mutation.holdsSlot_leaf hleaf).mpr ⟨rfl, hlimit⟩
    · rw [if_neg hbyte, apply_shard_of_ne happly hbyte]
      exact hkept idPrefix

end Mutation

end Hash

end CheckPo
