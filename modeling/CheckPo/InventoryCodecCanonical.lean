/-
The formats of the inventory are canonical: what a decoder accepts is the encoding
of the value it returns, and a value with the shape that the decoder checks decodes
back to itself.
-/
import CheckPo.InventoryCodec

namespace CheckPo

/-! Fields. -/

theorem bytes_digestFromBytes {bytes : Bytes} (h : bytes.length = 32) :
    (digestFromBytes bytes).bytes = bytes := by
  rw [digestFromBytes, dif_pos h]

@[simp] theorem digestFromBytes_bytes (digest : Digest32) :
    digestFromBytes digest.bytes = digest := by
  rw [digestFromBytes, dif_pos digest.length_eq]

theorem val_projectIdFromBytes {bytes : Bytes} (h : bytes.length = 16) :
    (projectIdFromBytes bytes).val = bytes := by
  rw [projectIdFromBytes, dif_pos h]

@[simp] theorem projectIdFromBytes_val (projectId : ProjectId) :
    projectIdFromBytes projectId.val = projectId := by
  rw [projectIdFromBytes, dif_pos projectId.property]

@[simp] theorem u32FromBe_writer (value : UInt32) : u32FromBe (Writer.u32 value) = value :=
  u32FromBe_toBigEndian value

@[simp] theorem u64FromBe_writer (value : UInt64) : u64FromBe (Writer.u64 value) = value :=
  u64FromBe_toBigEndian value

theorem writer_u32FromBe {bytes : Bytes} (h : bytes.length = 4) :
    Writer.u32 (u32FromBe bytes) = bytes :=
  toBigEndian_u32FromBe h

theorem writer_u64FromBe {bytes : Bytes} (h : bytes.length = 8) :
    Writer.u64 (u64FromBe bytes) = bytes :=
  toBigEndian_u64FromBe h

theorem eq_zeroDigest_bytes {bytes : Bytes} (hlength : bytes.length = 32)
    (h : bytes.all (fun byte => byte == 0) = true) : bytes = zeroDigest.bytes := by
  rw [List.all_eq_true] at h
  exact List.eq_replicate_iff.mpr ⟨hlength, fun byte hbyte => by simpa using h byte hbyte⟩

theorem bytes_injective {left right : Digest32} (h : left.bytes = right.bytes) : left = right := by
  cases left
  cases right
  cases h
  rfl

/-! States. -/

theorem decodeOperation_eq_ok {value : UInt8} {operation : InventoryOperation} :
    decodeOperation value = .ok operation ↔ operation.toByte = value := by
  constructor
  · intro h
    unfold decodeOperation at h
    split_ifs at h with hzero hone htwo
    · cases h
      exact hzero.symm
    · cases h
      exact hone.symm
    · cases h
      exact htwo.symm
  · rintro rfl
    cases operation <;> rfl

theorem decodeParent_eq_ok {present : UInt8} {bytes : Bytes} {parent : Option ObjectId}
    (hlength : bytes.length = 32) :
    decodeParent present bytes = .ok parent ↔
      presentByte parent = present ∧ (parent.getD zeroDigest).bytes = bytes := by
  constructor
  · intro h
    unfold decodeParent at h
    split_ifs at h with hnone hsome
    · cases h
      exact ⟨hnone.1.symm, (eq_zeroDigest_bytes hlength hnone.2).symm⟩
    · cases h
      exact ⟨hsome.symm, bytes_digestFromBytes hlength⟩
  · rintro ⟨rfl, rfl⟩
    cases parent with
    | none => rfl
    | some parent =>
        have hpresent : presentByte (some parent) = 1 := rfl
        rw [decodeParent, if_neg (by simp [hpresent]), if_pos hpresent]
        simp

/-- The snapshot id is absent exactly in the initial state. -/
theorem decodeStateSnapshotId_eq_ok {operation : InventoryOperation} {bytes : Bytes}
    {snapshotId : Option SnapshotId} (hlength : bytes.length = 32) :
    decodeStateSnapshotId operation bytes = .ok snapshotId ↔
      (snapshotId.getD zeroDigest).bytes = bytes ∧
        (snapshotId = none ↔ operation = .initialization) := by
  constructor
  · intro h
    cases operation with
    | initialization =>
        rw [decodeStateSnapshotId] at h
        split_ifs at h with hzero
        cases h
        exact ⟨hzero.symm, by simp⟩
    | add =>
        cases h
        exact ⟨bytes_digestFromBytes hlength, by simp⟩
    | remove =>
        cases h
        exact ⟨bytes_digestFromBytes hlength, by simp⟩
  · rintro ⟨rfl, hnone⟩
    cases snapshotId with
    | none =>
        rw [hnone.mp rfl]
        rfl
    | some id =>
        cases operation with
        | initialization => exact absurd (hnone.mpr rfl) (by simp)
        | add => simp [decodeStateSnapshotId]
        | remove => simp [decodeStateSnapshotId]

/-- The fields of a state's file, in order. -/
theorem state_fields {bytes : Bytes} (h : bytes.length = stateBytes) :
    slice bytes 0 8 ++ (slice bytes 8 12 ++ (slice bytes 12 28 ++ (slice bytes 28 36 ++
      (slice bytes 36 44 ++ ([byteAt bytes 44] ++ ([byteAt bytes 45] ++
      (slice bytes 46 78 ++ (slice bytes 78 110 ++ (slice bytes 110 142 ++
      slice bytes 142 174))))))))) = bytes := by
  have hlength : bytes.length = 174 := h
  rw [← slice_byteAt (by omega), ← slice_byteAt (by omega)]
  simp only [slice_append_slice, Nat.reduceLeDiff, Nat.reduceAdd, hlength, zero_le, le_refl]
  exact slice_all hlength

theorem encodeState_of_decodeState {bytes : Bytes} {state : InventoryState}
    (h : decodeState bytes = .ok state) : encodeState state = bytes := by
  simp only [decodeState, except_guard_eq_ok, except_bind_eq_ok, except_pure_eq_ok, not_or,
    not_not] at h
  obtain ⟨⟨hlength, hmagic⟩, hschema, operation, hoperation, parent, hparent, snapshotId,
    hsnapshot, -, rfl⟩ := h
  have hlen : bytes.length = 174 := hlength
  have hslice : ∀ start stop, stop ≤ 174 → (slice bytes start stop).length = stop - start :=
    fun start stop hstop => length_slice (hlen ▸ hstop)
  rw [decodeOperation_eq_ok] at hoperation
  rw [decodeParent_eq_ok (hslice 46 78 (by omega))] at hparent
  rw [decodeStateSnapshotId_eq_ok (hslice 78 110 (by omega))] at hsnapshot
  rw [encodeState, hoperation, hparent.1, hparent.2, hsnapshot.1,
    val_projectIdFromBytes (hslice 12 28 (by omega)), writer_u64FromBe (hslice 28 36 (by omega)),
    writer_u64FromBe (hslice 36 44 (by omega)), bytes_digestFromBytes (hslice 110 142 (by omega)),
    bytes_digestFromBytes (hslice 142 174 (by omega)), ← hmagic, ← hschema,
    writer_u32FromBe (hslice 8 12 (by omega))]
  exact state_fields hlength

theorem length_encodeState (state : InventoryState) : (encodeState state).length = stateBytes := by
  have hproject := state.projectId.property
  simp [encodeState, stateMagic, stateBytes, hproject, Digest32.length_eq]

/-- The fields of an encoded state, each at its offset. -/
theorem encodeState_fields (state : InventoryState) :
    slice (encodeState state) 0 8 = stateMagic ∧
      slice (encodeState state) 8 12 = Writer.u32 inventorySchemaVersion ∧
      slice (encodeState state) 12 28 = state.projectId.val ∧
      slice (encodeState state) 28 36 = Writer.u64 state.generation ∧
      slice (encodeState state) 36 44 = Writer.u64 state.count ∧
      byteAt (encodeState state) 44 = state.operation.toByte ∧
      byteAt (encodeState state) 45 = presentByte state.parent ∧
      slice (encodeState state) 46 78 = (state.parent.getD zeroDigest).bytes ∧
      slice (encodeState state) 78 110 = (state.snapshotId.getD zeroDigest).bytes ∧
      slice (encodeState state) 110 142 = state.operationId.bytes ∧
      slice (encodeState state) 142 174 = state.setRoot.bytes := by
  have hmagic : stateMagic.length = 8 := rfl
  have hschema := length_writer_u32 inventorySchemaVersion
  have hproject := state.projectId.property
  have hgeneration := length_writer_u64 state.generation
  have hcount := length_writer_u64 state.count
  have hoperation : [state.operation.toByte].length = 1 := rfl
  have hpresent : [presentByte state.parent].length = 1 := rfl
  have hparent := (state.parent.getD zeroDigest).length_eq
  have hsnapshot := (state.snapshotId.getD zeroDigest).length_eq
  have hoperationId := state.operationId.length_eq
  have hlast := slice_all state.setRoot.length_eq
  refine ⟨?_, ?_, ?_, ?_, ?_, ?_, ?_, ?_, ?_, ?_, ?_⟩ <;>
    simp (disch := omega) only [encodeState, slice_skip, slice_first, byteAt_skip, byteAt_first,
      hmagic, hschema, hproject, hgeneration, hcount, hoperation, hpresent, hparent, hsnapshot,
      hoperationId, hlast, Nat.reduceSub]

theorem validShape_snapshotId {state : InventoryState} (h : state.validShape = true) :
    state.snapshotId = none ↔ state.operation = .initialization := by
  rcases hoperation : state.operation with _ | _ | _ <;>
    simp only [InventoryState.validShape, hoperation, Bool.and_eq_true, Option.isNone_iff_eq_none,
      Option.isSome_iff_ne_none] at h
  · simp [h.1.2]
  · simp [h.1.2]
  · simp [h.1.2]

theorem decodeState_encodeState {state : InventoryState} (h : state.validShape = true) :
    decodeState (encodeState state) = .ok state := by
  obtain ⟨hmagic, hschema, hproject, hgeneration, hcount, hoperation, hparent, hparentBytes,
    hsnapshot, hoperationId, hsetRoot⟩ := encodeState_fields state
  simp only [decodeState, except_guard_eq_ok, except_bind_eq_ok, except_pure_eq_ok, not_or,
    not_not, hmagic, hschema, hproject, hgeneration, hcount, hoperation, hparent, hparentBytes,
    hsnapshot, hoperationId, hsetRoot, u32FromBe_writer, u64FromBe_writer,
    projectIdFromBytes_val, digestFromBytes_bytes]
  refine ⟨⟨length_encodeState state, trivial⟩, trivial, state.operation,
    decodeOperation_eq_ok.mpr rfl, state.parent,
    (decodeParent_eq_ok (Digest32.length_eq _)).mpr ⟨rfl, rfl⟩, state.snapshotId,
    (decodeStateSnapshotId_eq_ok (Digest32.length_eq _)).mpr ⟨rfl, validShape_snapshotId h⟩, ?_,
    rfl⟩
  exact fun hshape => absurd (h.symm.trans hshape) (by decide)

/-! Set roots. -/

/-- What the decoder asks of a slot. -/
def LeafRef.Valid (reference : LeafRef) : Prop := reference.id ≠ zeroDigest ∧ 0 < reference.count

def SetRoot.SlotsValid (root : SetRoot) : Prop :=
  ∀ reference, some reference ∈ root.leaves → reference.Valid

theorem length_encodeSlot (reference : Option LeafRef) :
    (encodeSlot reference).length = rootSlotBytes := by
  simp [encodeSlot, Digest32.length_eq, rootSlotBytes]

theorem slot_fields {bytes : Bytes} (h : bytes.length = rootSlotBytes) :
    [byteAt bytes 0] ++ (slice bytes 1 33 ++ slice bytes 33 37) = bytes := by
  have hlength : bytes.length = 37 := h
  rw [← slice_byteAt (by omega)]
  simp only [slice_append_slice, Nat.reduceLeDiff, Nat.reduceAdd, hlength, zero_le, le_refl]
  exact slice_all hlength

theorem encodeSlot_of_decodeSlot {bytes : Bytes} (hlength : bytes.length = rootSlotBytes)
    {reference : Option LeafRef} (h : decodeSlot bytes = .ok reference) :
    encodeSlot reference = bytes ∧ ∀ leaf, reference = some leaf → leaf.Valid := by
  have hlen : bytes.length = 37 := hlength
  have hdigest : (slice bytes 1 33).length = 32 := length_slice (by omega)
  have hcount : Writer.u32 (u32FromBe (slice bytes 33 37)) = slice bytes 33 37 :=
    writer_u32FromBe (length_slice (by omega))
  simp only [decodeSlot] at h
  split_ifs at h with hnone hsome
  · cases h
    obtain ⟨hpresent, hzero, hleafCount⟩ := hnone
    refine ⟨?_, by simp⟩
    rw [← slot_fields hlength, hpresent, hzero, ← hcount, hleafCount]
    rfl
  · cases h
    obtain ⟨hpresent, hnonzero, hpos⟩ := hsome
    constructor
    · rw [encodeSlot, Option.map_some, Option.map_some, Option.getD_some, Option.getD_some,
        bytes_digestFromBytes hdigest, hcount]
      conv_rhs => rw [← slot_fields hlength, hpresent]
      rfl
    · intro leaf hleaf
      cases hleaf
      refine ⟨fun hid => hnonzero ?_, hpos⟩
      rw [← bytes_digestFromBytes hdigest]
      exact congrArg Digest32.bytes hid

theorem decodeSlot_encodeSlot {reference : Option LeafRef}
    (h : ∀ leaf, reference = some leaf → leaf.Valid) :
    decodeSlot (encodeSlot reference) = .ok reference := by
  have hpresent : [presentByte reference].length = 1 := rfl
  have hdigest := ((reference.map LeafRef.id).getD zeroDigest).length_eq
  have hcount := length_writer_u32 ((reference.map LeafRef.count).getD 0)
  have hlast := slice_all hcount
  simp (disch := omega) only [decodeSlot, encodeSlot, byteAt_first, slice_skip, slice_first,
    hpresent, hdigest, hlast, Nat.reduceSub, u32FromBe_writer, digestFromBytes_bytes]
  cases reference with
  | none => rfl
  | some leaf =>
      obtain ⟨hid, hpos⟩ := h leaf rfl
      have hbytes : leaf.id.bytes ≠ zeroDigest.bytes := fun heq => hid (bytes_injective heq)
      rw [if_neg (by simp [presentByte]), if_pos ⟨rfl, hbytes, hpos⟩]
      rfl

theorem length_flatMap_encodeSlot (leaves : List (Option LeafRef)) :
    (leaves.flatMap encodeSlot).length = leaves.length * rootSlotBytes := by
  induction leaves with
  | nil => simp
  | cons reference leaves ih =>
      rw [List.flatMap_cons, List.length_append, ih, length_encodeSlot, List.length_cons]
      ring

theorem encodeSlots_of_decodeSlots {slots : Nat} {bytes : Bytes}
    (hlength : bytes.length = slots * rootSlotBytes) {leaves : List (Option LeafRef)}
    (h : decodeSlots slots bytes = .ok leaves) :
    leaves.flatMap encodeSlot = bytes ∧ leaves.length = slots ∧
      ∀ leaf, some leaf ∈ leaves → leaf.Valid := by
  induction slots generalizing bytes leaves with
  | zero =>
      cases h
      rw [Nat.zero_mul] at hlength
      exact ⟨(List.eq_nil_of_length_eq_zero hlength).symm, rfl, by simp⟩
  | succ slots ih =>
      simp only [decodeSlots, except_bind_eq_ok, except_pure_eq_ok] at h
      obtain ⟨reference, hreference, rest, hrest, rfl⟩ := h
      have hsplit : bytes.length = rootSlotBytes + slots * rootSlotBytes := by
        rw [hlength]
        ring
      obtain ⟨hslot, hvalid⟩ := encodeSlot_of_decodeSlot
        (by rw [List.length_take, hsplit, min_eq_left (Nat.le_add_right _ _)]) hreference
      obtain ⟨hbytes, hcount, hvalidRest⟩ := ih
        (by rw [List.length_drop, hsplit, Nat.add_sub_cancel_left]) hrest
      refine ⟨?_, by rw [List.length_cons, hcount], ?_⟩
      · rw [List.flatMap_cons, hslot, hbytes, List.take_append_drop]
      · intro leaf hleaf
        rcases List.mem_cons.mp hleaf with heq | hleaf
        · exact hvalid leaf heq.symm
        · exact hvalidRest leaf hleaf

theorem decodeSlots_encodeSlots {leaves : List (Option LeafRef)}
    (h : ∀ leaf, some leaf ∈ leaves → leaf.Valid) :
    decodeSlots leaves.length (leaves.flatMap encodeSlot) = .ok leaves := by
  induction leaves with
  | nil => rfl
  | cons reference leaves ih =>
      have hfirst := @decodeSlot_encodeSlot reference fun leaf heq => h leaf (by simp [heq])
      have hrest := ih fun leaf hleaf => h leaf (List.mem_cons_of_mem _ hleaf)
      have htake : ((encodeSlot reference) ++ leaves.flatMap encodeSlot).take rootSlotBytes =
          encodeSlot reference := by
        rw [← length_encodeSlot reference, List.take_left]
      have hdrop : ((encodeSlot reference) ++ leaves.flatMap encodeSlot).drop rootSlotBytes =
          leaves.flatMap encodeSlot := by
        rw [← length_encodeSlot reference, List.drop_left]
      rw [List.length_cons, List.flatMap_cons, decodeSlots, htake, hdrop, hfirst, hrest]
      rfl

/-- The fields before the slots. -/
theorem root_fields {bytes : Bytes} (h : bytes.length = rootBytes) :
    slice bytes 0 8 ++ (slice bytes 8 12 ++ (slice bytes 12 28 ++ (slice bytes 28 36 ++
      bytes.drop rootHeaderBytes))) = bytes := by
  have hlength : bytes.length = 9508 := h
  have hheader : rootHeaderBytes = 36 := rfl
  have hfront : slice bytes 0 36 = bytes.take 36 := rfl
  simp only [← List.append_assoc, slice_append_slice, Nat.reduceLeDiff, hlength, zero_le,
    hheader, hfront, List.take_append_drop]

theorem encodeSetRoot_of_decodeSetRoot {bytes : Bytes} {root : SetRoot}
    (h : decodeSetRoot bytes = .ok root) :
    encodeSetRoot root = .ok bytes ∧ root.SlotsValid := by
  simp only [decodeSetRoot, except_guard_eq_ok, except_bind_eq_ok, except_pure_eq_ok, not_or,
    not_not] at h
  obtain ⟨⟨hlength, hmagic⟩, hschema, leaves, hleaves, rfl⟩ := h
  have hlen : bytes.length = 9508 := hlength
  have hslots : (bytes.drop rootHeaderBytes).length = 256 * rootSlotBytes := by
    rw [List.length_drop, hlength]
    rfl
  obtain ⟨hbytes, hcount, hvalid⟩ := encodeSlots_of_decodeSlots hslots hleaves
  refine ⟨?_, hvalid⟩
  simp only [encodeSetRoot, hcount, ne_eq, not_true_eq_false, if_false]
  rw [hbytes, val_projectIdFromBytes (length_slice (by omega)),
    writer_u64FromBe (length_slice (by omega)), ← hmagic, ← hschema,
    writer_u32FromBe (length_slice (by omega)), root_fields hlength]

theorem encodeSetRoot_eq_ok {root : SetRoot} {bytes : Bytes} :
    encodeSetRoot root = .ok bytes ↔ root.leaves.length = 256 ∧
      rootMagic ++ (Writer.u32 inventorySchemaVersion ++ (root.projectId.val ++
        (Writer.u64 root.count ++ root.leaves.flatMap encodeSlot))) = bytes := by
  simp only [encodeSetRoot, except_guard_eq_ok, ne_eq, not_not, Except.ok.injEq]

theorem decodeSetRoot_encodeSetRoot {root : SetRoot} {bytes : Bytes}
    (h : encodeSetRoot root = .ok bytes) (hvalid : root.SlotsValid) :
    decodeSetRoot bytes = .ok root := by
  obtain ⟨hslots, rfl⟩ := encodeSetRoot_eq_ok.mp h
  have hmagic : rootMagic.length = 8 := rfl
  have hschema := length_writer_u32 inventorySchemaVersion
  have hproject := root.projectId.property
  have hcount := length_writer_u64 root.count
  have hbody := length_flatMap_encodeSlot root.leaves
  have hdrop : (rootMagic ++ (Writer.u32 inventorySchemaVersion ++ (root.projectId.val ++
      (Writer.u64 root.count ++ root.leaves.flatMap encodeSlot)))).drop rootHeaderBytes =
        root.leaves.flatMap encodeSlot := by
    simp only [← List.append_assoc]
    apply List.drop_left'
    simp [hmagic, hproject, rootHeaderBytes]
  have hleaves := decodeSlots_encodeSlots hvalid
  rw [hslots] at hleaves hbody
  simp (disch := omega) only [decodeSetRoot, hdrop, slice_skip, slice_first, hmagic, hschema,
    hproject, Nat.reduceSub, u32FromBe_writer, u64FromBe_writer, projectIdFromBytes_val,
    hleaves, except_bind_ok]
  rw [if_neg, if_neg (by simp)]
  · rfl
  · simp only [List.length_append, hmagic, hschema, hproject, hcount, hbody, rootBytes,
      rootHeaderBytes, ne_eq, not_true_eq_false, or_false]
    omega

/-! Set leaves. -/

/-- What the decoder asks of the ids of a leaf. -/
structure SetLeaf.IdsValid (leaf : SetLeaf) : Prop where
  nonempty : leaf.ids ≠ []
  increasing : leaf.ids.Pairwise (· < ·)
  firstByte : ∀ id ∈ leaf.ids, id.firstByte = leaf.idPrefix

theorem idsIncreasing_iff {ids : List SnapshotId} :
    idsIncreasing ids = true ↔ ids.Pairwise (· < ·) := by
  induction ids with
  | nil => simp [idsIncreasing]
  | cons first rest ih =>
      cases rest with
      | nil => simp [idsIncreasing]
      | cons second rest =>
          rw [idsIncreasing, Bool.and_eq_true, decide_eq_true_eq, ih]
          constructor
          · rintro ⟨hlt, hrest⟩
            refine List.pairwise_cons.mpr ⟨List.forall_mem_cons.mpr ⟨hlt, fun id hid => ?_⟩, hrest⟩
            exact hlt.trans (List.rel_of_pairwise_cons hrest hid)
          · intro h
            exact ⟨(List.pairwise_cons.mp h).1 second List.mem_cons_self,
              (List.pairwise_cons.mp h).2⟩

theorem encodeSetLeaf_eq_ok {leaf : SetLeaf} {bytes : Bytes} :
    encodeSetLeaf leaf = .ok bytes ↔ leaf.IdsValid ∧ leaf.ids.length < 2 ^ 32 ∧
      leafMagic ++ (Writer.u32 inventorySchemaVersion ++ (leaf.projectId.val ++
        ([leaf.idPrefix] ++ (Writer.u32 (UInt32.ofNat leaf.ids.length) ++
          leaf.ids.flatMap Digest32.bytes)))) = bytes := by
  simp only [encodeSetLeaf, except_guard_eq_ok, except_pure_eq_ok, not_or, not_le,
    Bool.not_eq_false, idsIncreasing_iff, List.any_eq_true, bne_iff_ne, not_exists, not_and,
    not_not]
  constructor
  · rintro ⟨hne, ⟨hincreasing, hfirst⟩, hlength, hbytes⟩
    exact ⟨⟨hne, hincreasing, hfirst⟩, hlength, hbytes⟩
  · rintro ⟨⟨hne, hincreasing, hfirst⟩, hlength, hbytes⟩
    exact ⟨hne, ⟨hincreasing, hfirst⟩, hlength, hbytes⟩

theorem length_flatMap_bytes (ids : List SnapshotId) :
    (ids.flatMap Digest32.bytes).length = ids.length * 32 := by
  induction ids with
  | nil => simp
  | cons id ids ih =>
      rw [List.flatMap_cons, List.length_append, ih, Digest32.length_eq, List.length_cons]
      ring

/-- The loop accepts increasing ids above the previous one, with the leaf's first byte. -/
theorem decodeIds_eq_ok {idPrefix : UInt8} {previous : Option SnapshotId} {count : Nat}
    {bytes : Bytes} (hlength : bytes.length = count * 32) {ids : List SnapshotId} :
    decodeIds idPrefix previous count bytes = .ok ids ↔
      ids.length = count ∧ ids.flatMap Digest32.bytes = bytes ∧
        (previous.toList ++ ids).Pairwise (· < ·) ∧ ∀ id ∈ ids, id.firstByte = idPrefix := by
  induction count generalizing previous bytes ids with
  | zero =>
      rw [Nat.zero_mul, List.length_eq_zero_iff] at hlength
      subst hlength
      rw [decodeIds, Except.ok.injEq]
      constructor
      · rintro rfl
        cases previous <;> simp
      · rintro ⟨hcount, -⟩
        exact (List.length_eq_zero_iff.mp hcount).symm
  | succ count ih =>
      have hsplit : bytes.length = 32 + count * 32 := by
        rw [hlength]
        ring
      have htake : (bytes.take 32).length = 32 := by
        rw [List.length_take, hsplit, min_eq_left (Nat.le_add_right _ _)]
      have hdrop : (bytes.drop 32).length = count * 32 := by
        rw [List.length_drop, hsplit, Nat.add_sub_cancel_left]
      have hprevious : ∀ id : SnapshotId,
          previous.any (fun previous => decide (id ≤ previous)) = false ↔
            ∀ previous' ∈ previous, previous' < id := by
        intro id
        cases previous <;> simp
      simp only [decodeIds, except_guard_eq_ok, except_bind_eq_ok, except_pure_eq_ok, not_or,
        Bool.not_eq_true, not_not, hprevious, ih hdrop]
      constructor
      · rintro ⟨⟨hfirst, habove⟩, rest, ⟨hcount, hbytes, hincreasing, hrest⟩, rfl⟩
        refine ⟨by rw [List.length_cons, hcount], ?_, ?_, List.forall_mem_cons.mpr ⟨hfirst, hrest⟩⟩
        · rw [List.flatMap_cons, bytes_digestFromBytes htake, hbytes, List.take_append_drop]
        · cases previous with
          | none => exact hincreasing
          | some previous =>
              refine List.pairwise_cons.mpr ⟨List.forall_mem_cons.mpr
                ⟨habove previous rfl, fun id hid => ?_⟩, hincreasing⟩
              exact (habove previous rfl).trans (List.rel_of_pairwise_cons hincreasing hid)
      · rintro ⟨hcount, hbytes, hincreasing, hfirst⟩
        cases ids with
        | nil => simp at hcount
        | cons id rest =>
            rw [List.flatMap_cons] at hbytes
            have hid : bytes.take 32 = id.bytes := by
              rw [← hbytes, ← id.length_eq, List.take_left]
            have hrest : bytes.drop 32 = rest.flatMap Digest32.bytes := by
              rw [← hbytes, ← id.length_eq, List.drop_left]
            rw [List.forall_mem_cons] at hfirst
            rw [hid, digestFromBytes_bytes, hrest]
            refine ⟨⟨hfirst.1, ?_⟩, rest, ⟨Nat.succ.inj hcount, rfl, ?_, hfirst.2⟩, rfl⟩
            · rintro previous' hprevious'
              rw [Option.mem_def] at hprevious'
              subst hprevious'
              exact (List.pairwise_cons.mp hincreasing).1 id List.mem_cons_self
            · exact hincreasing.sublist (List.sublist_append_right _ _)

theorem leaf_fields {bytes : Bytes} (h : leafHeaderBytes ≤ bytes.length) :
    slice bytes 0 8 ++ (slice bytes 8 12 ++ (slice bytes 12 28 ++ ([byteAt bytes 28] ++
      (slice bytes 29 33 ++ bytes.drop leafHeaderBytes)))) = bytes := by
  have hlength : 33 ≤ bytes.length := h
  have hheader : leafHeaderBytes = 33 := rfl
  have hfront : slice bytes 0 33 = bytes.take 33 := rfl
  rw [← slice_byteAt (by omega)]
  simp (disch := omega) only [← List.append_assoc, slice_append_slice, Nat.reduceAdd, hheader]
  rw [hfront, List.take_append_drop]

theorem encodeSetLeaf_of_decodeSetLeaf {bytes : Bytes} {leaf : SetLeaf}
    (h : decodeSetLeaf bytes = .ok leaf) :
    encodeSetLeaf leaf = .ok bytes ∧
      bytes.length = leafHeaderBytes + leaf.ids.length * 32 := by
  simp only [decodeSetLeaf, except_guard_eq_ok, except_bind_eq_ok, except_pure_eq_ok, not_or,
    not_not, not_lt] at h
  obtain ⟨⟨hheader, hmagic⟩, hschema, ⟨hnonzero, hlength⟩, ids, hids, rfl⟩ := h
  have hlen : 33 ≤ bytes.length := hheader
  have hbody : (bytes.drop leafHeaderBytes).length =
      (u32FromBe (slice bytes 29 33)).toNat * 32 := by
    rw [List.length_drop, hlength, Nat.add_sub_cancel_left]
  obtain ⟨hcount, hbytes, hincreasing, hfirst⟩ := (decodeIds_eq_ok hbody).mp hids
  have hne : ids ≠ [] := by
    rintro rfl
    exact hnonzero hcount.symm
  refine ⟨encodeSetLeaf_eq_ok.mpr ⟨⟨hne, hincreasing, hfirst⟩, ?_, ?_⟩, hcount ▸ hlength⟩
  · rw [hcount]
    exact UInt32.toNat_lt _
  · rw [hcount, UInt32.ofNat_toNat, hbytes, val_projectIdFromBytes (length_slice (by omega)),
      writer_u32FromBe (length_slice (by omega)), ← hmagic, ← hschema,
      writer_u32FromBe (length_slice (by omega)), leaf_fields hheader]

theorem length_encodeSetLeaf {leaf : SetLeaf} {bytes : Bytes}
    (h : encodeSetLeaf leaf = .ok bytes) :
    bytes.length = leafHeaderBytes + leaf.ids.length * 32 := by
  obtain ⟨-, -, rfl⟩ := encodeSetLeaf_eq_ok.mp h
  have hmagic : leafMagic.length = 8 := rfl
  simp only [List.length_append, hmagic, leaf.projectId.property, length_writer_u32,
    List.length_singleton, length_flatMap_bytes, leafHeaderBytes]
  omega

theorem decodeSetLeaf_encodeSetLeaf {leaf : SetLeaf} {bytes : Bytes}
    (h : encodeSetLeaf leaf = .ok bytes) : decodeSetLeaf bytes = .ok leaf := by
  have hlength := length_encodeSetLeaf h
  obtain ⟨hvalid, hlimit, rfl⟩ := encodeSetLeaf_eq_ok.mp h
  have hmagic : leafMagic.length = 8 := rfl
  have hschema := length_writer_u32 inventorySchemaVersion
  have hproject := leaf.projectId.property
  have hbyte : [leaf.idPrefix].length = 1 := rfl
  have hcount := length_writer_u32 (UInt32.ofNat leaf.ids.length)
  have hdrop : (leafMagic ++ (Writer.u32 inventorySchemaVersion ++ (leaf.projectId.val ++
      ([leaf.idPrefix] ++ (Writer.u32 (UInt32.ofNat leaf.ids.length) ++
        leaf.ids.flatMap Digest32.bytes))))).drop leafHeaderBytes =
          leaf.ids.flatMap Digest32.bytes := by
    simp only [← List.append_assoc]
    apply List.drop_left'
    simp [hmagic, hproject, leafHeaderBytes]
  have hids : decodeIds leaf.idPrefix none leaf.ids.length (leaf.ids.flatMap Digest32.bytes) =
      .ok leaf.ids :=
    (decodeIds_eq_ok (length_flatMap_bytes leaf.ids)).mpr
      ⟨rfl, rfl, hvalid.increasing, hvalid.firstByte⟩
  have hpos : leaf.ids.length ≠ 0 := fun hzero =>
    hvalid.nonempty (List.length_eq_zero_iff.mp hzero)
  have hheader : ¬ leafHeaderBytes + leaf.ids.length * 32 < leafHeaderBytes := by omega
  simp (disch := omega) only [decodeSetLeaf, hlength, hdrop, slice_skip, slice_first,
    byteAt_skip, byteAt_first, hmagic, hschema, hproject, hbyte, Nat.reduceSub,
    u32FromBe_writer, projectIdFromBytes_val, UInt32.toNat_ofNat_of_lt' hlimit, hids,
    except_bind_ok]
  rw [if_neg (by simp [hheader]), if_neg (by simp), if_neg (by simp [hpos])]
  rfl

end CheckPo
