/-
The set of snapshots that a state of the inventory denotes, and that reading the ids
of a state returns exactly this set.
-/
import CheckPo.InventoryTransition

namespace CheckPo

section Hash

variable {blake3 : Bytes → Digest32} {store : InventoryStore} {projectId : ProjectId}

/-- A slot refers to a leaf of these ids, or to none if there are no ids. -/
def HoldsSlot (blake3 : Bytes → Digest32) (store : InventoryStore) (projectId : ProjectId)
    (idPrefix : UInt8) (slot : Option LeafRef) (ids : List SnapshotId) : Prop :=
  match slot with
  | none => ids = []
  | some reference =>
      store.loadSlotLeaf blake3 projectId reference idPrefix = .ok ⟨projectId, idPrefix, ids⟩

/-- The set that a state denotes: its set root has a slot for each first byte, and
every slot holds the ids of that byte in increasing order. -/
def HasSet (blake3 : Bytes → Digest32) (store : InventoryStore) (projectId : ProjectId)
    (state : InventoryState) (ids : Finset SnapshotId) : Prop :=
  ∃ root, store.loadStateRoot blake3 projectId state = .ok root ∧
    root.count.toNat = ids.card ∧
    ∀ idPrefix, HoldsSlot blake3 store projectId idPrefix (root.slot idPrefix)
      (shard Digest32.firstByte ids idPrefix)

theorem loadSlotLeaf_valid {reference : LeafRef} {idPrefix : UInt8} {leaf : SetLeaf}
    (h : store.loadSlotLeaf blake3 projectId reference idPrefix = .ok leaf) :
    leaf.projectId = projectId ∧ leaf.idPrefix = idPrefix ∧ leaf.IdsValid ∧
      leaf.ids.length = reference.count.toNat := by
  obtain ⟨hload, hcount⟩ := loadSlotLeaf_eq_ok.mp h
  obtain ⟨bytes, hencode, -, -, -, hproject, hbyte⟩ := loadSetLeaf_eq_ok.mp hload
  exact ⟨hproject, hbyte, (encodeSetLeaf_eq_ok.mp hencode).1, hcount⟩

/-- What the ids of a slot are like. -/
theorem HoldsSlot.valid {idPrefix : UInt8} {slot : Option LeafRef} {ids : List SnapshotId}
    (h : HoldsSlot blake3 store projectId idPrefix slot ids) :
    ids.Pairwise (· < ·) ∧ ∀ id ∈ ids, id.firstByte = idPrefix := by
  cases slot with
  | none =>
      obtain rfl : ids = [] := h
      exact ⟨.nil, by simp⟩
  | some reference =>
      obtain ⟨-, -, hvalid, -⟩ := loadSlotLeaf_valid h
      exact ⟨hvalid.increasing, hvalid.firstByte⟩

theorem HoldsSlot.unique {idPrefix : UInt8} {slot : Option LeafRef}
    {left right : List SnapshotId} (hleft : HoldsSlot blake3 store projectId idPrefix slot left)
    (hright : HoldsSlot blake3 store projectId idPrefix slot right) : left = right := by
  cases slot with
  | none =>
      obtain rfl : left = [] := hleft
      exact Eq.symm hright
  | some reference =>
      rw [HoldsSlot] at hleft hright
      exact congrArg SetLeaf.ids (Except.ok.inj (hleft.symm.trans hright))

/-- The leaf that a mutation starts from. -/
theorem leafBefore_eq_ok {root : SetRoot} {idPrefix : UInt8} {leaf : SetLeaf} :
    store.leafBefore blake3 projectId root idPrefix = .ok leaf ↔
      ∃ ids, HoldsSlot blake3 store projectId idPrefix (root.slot idPrefix) ids ∧
        leaf = ⟨projectId, idPrefix, ids⟩ := by
  unfold InventoryStore.leafBefore
  rcases hslot : root.slot idPrefix with _ | reference
  · simp only [Except.ok.injEq, HoldsSlot, exists_eq_left, eq_comm]
  · constructor
    · intro h
      obtain ⟨rfl, rfl, -, -⟩ := loadSlotLeaf_valid h
      exact ⟨leaf.ids, h, rfl⟩
    · rintro ⟨ids, hids, rfl⟩
      exact hids

/-! Reading the ids. -/

/-- The inner loop of `load_inventory_ids`. -/
theorem insertAll_eq_ok {leafIds : List SnapshotId} {ids result : Finset SnapshotId} :
    leafIds.foldlM (fun ids id => if id ∈ ids then
      (.error (.corruption s!"snapshot inventory set contains duplicate root {id.toHex}") :
        CheckPoResult (Finset SnapshotId)) else .ok (insert id ids)) ids = .ok result ↔
      leafIds.Nodup ∧ Disjoint ids leafIds.toFinset ∧ result = ids ∪ leafIds.toFinset := by
  induction leafIds generalizing ids with
  | nil => simp [pure, Except.pure, eq_comm]
  | cons id rest ih =>
      rw [List.foldlM_cons]
      by_cases hmem : id ∈ ids
      · rw [if_pos hmem]
        constructor
        · intro h
          cases h
        · rintro ⟨-, hdisjoint, -⟩
          exact absurd hmem (Finset.disjoint_right.mp hdisjoint (by simp))
      · rw [if_neg hmem, except_bind_ok, ih, List.nodup_cons, List.toFinset_cons,
          Finset.disjoint_insert_left, Finset.disjoint_insert_right, List.mem_toFinset,
          Finset.insert_union, Finset.union_insert]
        tauto

theorem toNat_ofNat_count (count : UInt32) : (UInt64.ofNat count.toNat).toNat = count.toNat :=
  UInt64.toNat_ofNat_of_lt' (count.toNat_lt.trans (by decide))

theorem collectSlot_eq_ok {progress after : Finset SnapshotId × UInt64} {slot : Option LeafRef}
    {index : Nat} :
    store.collectSlot blake3 projectId progress (slot, index) = .ok after ↔
      ∃ leafIds, HoldsSlot blake3 store projectId (UInt8.ofNat index) slot leafIds ∧
        Disjoint progress.1 leafIds.toFinset ∧ after.1 = progress.1 ∪ leafIds.toFinset ∧
        after.2.toNat = progress.2.toNat + leafIds.length := by
  cases slot with
  | none =>
      simp [InventoryStore.collectSlot, HoldsSlot, Prod.ext_iff, UInt64.toNat_inj, eq_comm]
  | some reference =>
      simp only [InventoryStore.collectSlot, except_bind_eq_ok, except_pure_eq_ok, orError_eq_ok,
        insertAll_eq_ok, HoldsSlot]
      constructor
      · rintro ⟨leaf, hload, total, htotal, ids, ⟨-, hdisjoint, rfl⟩, rfl⟩
        obtain ⟨rfl, hbyte, -, hcount⟩ := loadSlotLeaf_valid hload
        refine ⟨leaf.ids, ?_, hdisjoint, rfl, ?_⟩
        · rw [← hbyte] at hload ⊢
          exact hload
        · rw [hcount, ← checkedAdd_eq_some.mp htotal, toNat_ofNat_count]
      · rintro ⟨leafIds, hload, hdisjoint, hids, htotal⟩
        obtain ⟨-, -, hvalid, hcount⟩ := loadSlotLeaf_valid hload
        refine ⟨_, hload, after.2, ?_, _, ⟨?_, hdisjoint, hids⟩, rfl⟩
        · rw [checkedAdd_eq_some, toNat_ofNat_count, ← hcount, htotal]
        · exact hvalid.increasing.imp fun hlt => hlt.ne

/-- The ids of the slots before one. -/
def idsBelow (ids : Finset SnapshotId) (index : Nat) : Finset SnapshotId :=
  ids.filter fun id => id.firstByte.toNat < index

@[simp] theorem mem_idsBelow {ids : Finset SnapshotId} {index : Nat} {id : SnapshotId} :
    id ∈ idsBelow ids index ↔ id ∈ ids ∧ id.firstByte.toNat < index :=
  Finset.mem_filter

theorem idsBelow_idsBelow {ids : Finset SnapshotId} {index stop : Nat} (h : index ≤ stop) :
    idsBelow (idsBelow ids stop) index = idsBelow ids index := by
  ext id
  simp only [mem_idsBelow]
  exact ⟨fun ⟨⟨hid, _⟩, hlt⟩ => ⟨hid, hlt⟩, fun ⟨hid, hlt⟩ => ⟨⟨hid, hlt.trans_le h⟩, hlt⟩⟩

theorem shard_idsBelow {ids : Finset SnapshotId} {index : Nat} {idPrefix : UInt8}
    (h : idPrefix.toNat < index) :
    shard Digest32.firstByte (idsBelow ids index) idPrefix =
      shard Digest32.firstByte ids idPrefix := by
  apply eq_shard (shard_increasing _ _)
  intro id
  rw [mem_shard, mem_idsBelow]
  constructor
  · exact fun ⟨⟨hid, _⟩, hbyte⟩ => ⟨hid, hbyte⟩
  · exact fun ⟨hid, hbyte⟩ => ⟨⟨hid, hbyte ▸ h⟩, hbyte⟩

theorem firstByte_eq_ofNat {id : SnapshotId} {index : Nat} (h : index < 256) :
    id.firstByte = UInt8.ofNat index ↔ id.firstByte.toNat = index := by
  rw [← UInt8.toNat_inj, UInt8.toNat_ofNat_of_lt' h]

/-- What the outer loop has read when it comes to a slot. -/
structure Collected (index : Nat) (progress : Finset SnapshotId × UInt64) : Prop where
  below : ∀ id ∈ progress.1, id.firstByte.toNat < index
  total : progress.2.toNat = progress.1.card

theorem toFinset_shard (ids : Finset SnapshotId) (idPrefix : UInt8) :
    (shard Digest32.firstByte ids idPrefix).toFinset.card =
      (shard Digest32.firstByte ids idPrefix).length :=
  List.toFinset_card_of_nodup ((shard_increasing _ _).imp fun hlt => hlt.ne)

/-- One round of the outer loop adds the ids of its slot. -/
theorem collectSlot_collected {progress after : Finset SnapshotId × UInt64}
    {slot : Option LeafRef} {index : Nat} (hindex : index < 256)
    (hprogress : Collected index progress) :
    store.collectSlot blake3 projectId progress (slot, index) = .ok after ↔
      Collected (index + 1) after ∧ idsBelow after.1 index = progress.1 ∧
        HoldsSlot blake3 store projectId (UInt8.ofNat index) slot
          (shard Digest32.firstByte after.1 (UInt8.ofNat index)) := by
  rw [collectSlot_eq_ok]
  constructor
  · rintro ⟨leafIds, hholds, hdisjoint, hafter, htotal⟩
    obtain ⟨hsorted, hbyte⟩ := hholds.valid
    have hnat : ∀ id ∈ leafIds, id.firstByte.toNat = index :=
      fun id hid => (firstByte_eq_ofNat hindex).mp (hbyte id hid)
    have hmem : ∀ id, id ∈ after.1 ↔ id ∈ progress.1 ∨ id ∈ leafIds := by
      simp [hafter]
    have hshard : leafIds = shard Digest32.firstByte after.1 (UInt8.ofNat index) := by
      apply eq_shard hsorted
      intro id
      rw [hmem, firstByte_eq_ofNat hindex]
      constructor
      · exact fun hid => ⟨Or.inr hid, hnat id hid⟩
      · rintro ⟨hid | hid, heq⟩
        · exact absurd heq (hprogress.below id hid).ne
        · exact hid
    refine ⟨⟨fun id hid => ?_, ?_⟩, ?_, hshard ▸ hholds⟩
    · rcases (hmem id).mp hid with hid | hid
      · exact (hprogress.below id hid).trans (Nat.lt_succ_self index)
      · rw [hnat id hid]
        exact Nat.lt_succ_self index
    · rw [htotal, hafter, Finset.card_union_of_disjoint hdisjoint, hprogress.total,
        List.toFinset_card_of_nodup (hsorted.imp fun hlt => hlt.ne)]
    · ext id
      rw [mem_idsBelow, hmem]
      constructor
      · rintro ⟨hid | hid, hlt⟩
        · exact hid
        · exact absurd (hnat id hid) hlt.ne
      · exact fun hid => ⟨Or.inl hid, hprogress.below id hid⟩
  · rintro ⟨hafter, hbelow, hholds⟩
    have hdisjoint : Disjoint progress.1
        (shard Digest32.firstByte after.1 (UInt8.ofNat index)).toFinset := by
      rw [Finset.disjoint_left]
      intro id hid hshard
      rw [List.mem_toFinset, mem_shard, firstByte_eq_ofNat hindex] at hshard
      exact (hprogress.below id hid).ne hshard.2
    have hunion : after.1 = progress.1 ∪
        (shard Digest32.firstByte after.1 (UInt8.ofNat index)).toFinset := by
      ext id
      rw [← hbelow, Finset.mem_union, mem_idsBelow, List.mem_toFinset, mem_shard,
        firstByte_eq_ofNat hindex, ← and_or_left]
      constructor
      · exact fun hid => ⟨hid, Nat.lt_or_eq_of_le (Nat.le_of_lt_succ (hafter.below id hid))⟩
      · exact fun ⟨hid, _⟩ => hid
    refine ⟨_, hholds, hdisjoint, hunion, ?_⟩
    rw [hafter.total, hprogress.total, ← toFinset_shard, ← Finset.card_union_of_disjoint hdisjoint,
      ← hunion]

/-- The outer loop reads the slots from one on. -/
theorem collectSlots_collected {slots : List (Option LeafRef)} {index : Nat}
    {progress after : Finset SnapshotId × UInt64} (hindex : index + slots.length ≤ 256)
    (hprogress : Collected index progress) :
    (slots.zipIdx index).foldlM (store.collectSlot blake3 projectId) progress = .ok after ↔
      Collected (index + slots.length) after ∧ idsBelow after.1 index = progress.1 ∧
        ∀ offset (h : offset < slots.length),
          HoldsSlot blake3 store projectId (UInt8.ofNat (index + offset)) slots[offset]
            (shard Digest32.firstByte after.1 (UInt8.ofNat (index + offset))) := by
  induction slots generalizing index progress with
  | nil =>
      rw [List.zipIdx_nil, List.foldlM_nil, except_pure_eq_ok]
      constructor
      · rintro rfl
        refine ⟨hprogress, ?_, fun _ h => nomatch h⟩
        exact Finset.filter_true_of_mem hprogress.below
      · rintro ⟨hafter, hbelow, -⟩
        have hids : progress.1 = after.1 := by
          rw [← hbelow]
          exact Finset.filter_true_of_mem hafter.below
        refine Prod.ext hids (UInt64.toNat_inj.mp ?_)
        rw [hprogress.total, hafter.total, hids]
  | cons slot rest ih =>
      have hslot : index < 256 := by
        rw [List.length_cons] at hindex
        omega
      have hrest : index + 1 + rest.length ≤ 256 := by
        rw [List.length_cons] at hindex
        omega
      have hlength : index + (slot :: rest).length = index + 1 + rest.length := by
        rw [List.length_cons]
        omega
      have hbyte : (UInt8.ofNat index).toNat < index + 1 := by
        rw [UInt8.toNat_ofNat_of_lt' hslot]
        exact Nat.lt_succ_self index
      rw [List.zipIdx_cons, List.foldlM_cons, except_bind_eq_ok, hlength]
      constructor
      · rintro ⟨middle, hround, hloop⟩
        obtain ⟨hmiddle, hbelow, hholds⟩ := (collectSlot_collected hslot hprogress).mp hround
        obtain ⟨hafter, hsame, hslots⟩ := (ih hrest hmiddle).mp hloop
        refine ⟨hafter, ?_, fun offset h => ?_⟩
        · rw [← hbelow, ← hsame, idsBelow_idsBelow (Nat.le_succ index)]
        · cases offset with
          | zero =>
              rw [← hsame, shard_idsBelow hbyte] at hholds
              exact hholds
          | succ offset =>
              have hoffset := hslots offset (Nat.lt_of_succ_lt_succ h)
              rw [Nat.add_right_comm] at hoffset
              exact hoffset
      · rintro ⟨hafter, hbelow, hslots⟩
        have hcard : (idsBelow after.1 (index + 1)).card < 2 ^ 64 := by
          have hle := Finset.card_le_card (Finset.filter_subset
            (fun id : SnapshotId => id.firstByte.toNat < index + 1) after.1)
          exact hle.trans_lt (hafter.total ▸ UInt64.toNat_lt after.2)
        have hmiddle : Collected (index + 1) (idsBelow after.1 (index + 1),
            UInt64.ofNat (idsBelow after.1 (index + 1)).card) :=
          ⟨fun id hid => (mem_idsBelow.mp hid).2, UInt64.toNat_ofNat_of_lt' hcard⟩
        refine ⟨_, (collectSlot_collected hslot hprogress).mpr ⟨hmiddle, ?_, ?_⟩,
          (ih hrest hmiddle).mpr ⟨hafter, rfl, fun offset h => ?_⟩⟩
        · rw [idsBelow_idsBelow (Nat.le_succ index), hbelow]
        · rw [shard_idsBelow hbyte]
          exact hslots 0 (Nat.succ_pos _)
        · have hoffset := hslots (offset + 1) (Nat.succ_lt_succ h)
          rw [Nat.add_right_comm]
          exact hoffset

theorem length_leaves {state : InventoryState} {root : SetRoot}
    (h : store.loadStateRoot blake3 projectId state = .ok root) : root.leaves.length = 256 := by
  obtain ⟨bytes, hencode, -⟩ := loadSetRoot_eq_ok.mp (loadStateRoot_eq_ok.mp h).1
  exact (encodeSetRoot_eq_ok.mp hencode).1

theorem slot_eq_getElem {root : SetRoot} (idPrefix : UInt8) (h : idPrefix.toNat < root.leaves.length) :
    root.slot idPrefix = root.leaves[idPrefix.toNat] := by
  rw [SetRoot.slot, List.getD_eq_getElem _ _ h]

/-- Reading the ids of a state returns the set that it denotes. -/
theorem loadInventoryIds_eq_ok {state : InventoryState} {ids : Finset SnapshotId} :
    store.loadInventoryIds blake3 projectId state = .ok ids ↔
      HasSet blake3 store projectId state ids := by
  have hnone : Collected 0 (∅, 0) := ⟨by simp, rfl⟩
  have hempty : ∀ ids : Finset SnapshotId, idsBelow ids 0 = ∅ := fun ids =>
    Finset.filter_false_of_mem fun id _ => Nat.not_lt_zero _
  simp only [InventoryStore.loadInventoryIds, except_bind_eq_ok, except_guard_eq_ok,
    except_pure_eq_ok, not_or, ne_eq, not_not]
  constructor
  · rintro ⟨root, hroot, ⟨_, total⟩, hloop, ⟨htotal, -⟩, rfl⟩
    have hlength := length_leaves hroot
    obtain ⟨hcollected, -, hslots⟩ :=
      (collectSlots_collected (by rw [hlength]) hnone).mp hloop
    refine ⟨root, hroot, htotal ▸ hcollected.total, fun idPrefix => ?_⟩
    have hslot : idPrefix.toNat < root.leaves.length := by
      rw [hlength]
      exact idPrefix.toNat_lt
    have hholds := hslots idPrefix.toNat hslot
    rw [Nat.zero_add, UInt8.ofNat_toNat] at hholds
    rw [slot_eq_getElem idPrefix hslot]
    exact hholds
  · rintro ⟨root, hroot, hcount, hslots⟩
    have hlength := length_leaves hroot
    have hcollected : Collected (0 + root.leaves.length) (ids, root.count) := by
      refine ⟨fun id _ => ?_, hcount⟩
      rw [hlength, Nat.zero_add]
      exact id.firstByte.toNat_lt
    have hcard : UInt64.ofNat ids.card = root.count := by
      rw [← hcount, UInt64.ofNat_toNat]
    refine ⟨root, hroot, (ids, root.count), ?_, ⟨rfl, hcard⟩, rfl⟩
    refine (collectSlots_collected (by rw [hlength]) hnone).mpr
      ⟨hcollected, hempty ids, fun offset h => ?_⟩
    have hholds := hslots (UInt8.ofNat offset)
    have hbyte : (UInt8.ofNat offset).toNat = offset := UInt8.toNat_ofNat_of_lt' (h.trans_eq hlength)
    rw [slot_eq_getElem _ (by rw [hbyte]; exact h)] at hholds
    simp only [hbyte] at hholds
    rw [Nat.zero_add]
    exact hholds

end Hash

end CheckPo
