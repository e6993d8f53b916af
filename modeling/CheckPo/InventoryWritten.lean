/-
What the programs of the inventory write decodes back to the value that was written.
-/
import CheckPo.InventoryTransition

namespace CheckPo

/-- What a run relies on in BLAKE3: the contents that it hashes have different digests,
none of them zero. -/
structure HashSafe (blake3 : Bytes → Digest32) (used : Set Bytes) : Prop where
  injective : ∀ left ∈ used, ∀ right ∈ used, blake3 left = blake3 right → left = right
  nonzero : ∀ content ∈ used, blake3 content ≠ zeroDigest

/-- The contents under which the files of a store are hashed. -/
structure Within (used : Set Bytes) (store : InventoryStore) : Prop where
  states : ∀ id bytes, store.states id = some bytes → stateDomain ++ bytes ∈ used
  setRoots : ∀ id bytes, store.setRoots id = some bytes → setRootDomain ++ bytes ∈ used
  setLeaves : ∀ id bytes, store.setLeaves id = some bytes → setLeafDomain ++ bytes ∈ used

/-- Values that a program stores. -/
structure StoredValues where
  states : Set InventoryState
  setRoots : Set SetRoot
  setLeaves : Set SetLeaf

/-- Every file is as it was before, or holds the encoding of one of the stored values,
under the id of that encoding, and decodes back to this value. -/
structure WrittenFiles (blake3 : Bytes → Digest32) (values : StoredValues)
    (before after : InventoryStore) : Prop where
  states : ∀ id, after.states id = before.states id ∨ ∃ state ∈ values.states,
    stateId blake3 (encodeState state) = id ∧ after.states id = some (encodeState state) ∧
      decodeState (encodeState state) = .ok state
  setRoots : ∀ id, after.setRoots id = before.setRoots id ∨ ∃ root ∈ values.setRoots, ∃ bytes,
    encodeSetRoot root = .ok bytes ∧ setRootId blake3 bytes = id ∧
      after.setRoots id = some bytes ∧ decodeSetRoot bytes = .ok root
  setLeaves : ∀ id, after.setLeaves id = before.setLeaves id ∨ ∃ leaf ∈ values.setLeaves, ∃ bytes,
    encodeSetLeaf leaf = .ok bytes ∧ setLeafId blake3 bytes = id ∧
      after.setLeaves id = some bytes ∧ decodeSetLeaf bytes = .ok leaf

namespace WrittenFiles

variable {blake3 : Bytes → Digest32} {values : StoredValues} {before store : InventoryStore}

theorem refl (store : InventoryStore) : WrittenFiles blake3 values store store where
  states _ := Or.inl rfl
  setRoots _ := Or.inl rfl
  setLeaves _ := Or.inl rfl

theorem withSetLeaf (h : WrittenFiles blake3 values before store) {leaf : SetLeaf} {bytes : Bytes}
    (hstored : leaf ∈ values.setLeaves) (hencode : encodeSetLeaf leaf = .ok bytes) :
    WrittenFiles blake3 values before (store.withSetLeaf blake3 bytes) where
  states := h.states
  setRoots := h.setRoots
  setLeaves id := by
    by_cases heq : id = setLeafId blake3 bytes
    · subst heq
      exact Or.inr ⟨leaf, hstored, bytes, hencode, rfl, Function.update_self _ _ _,
        decodeSetLeaf_encodeSetLeaf hencode⟩
    · have hsame : (store.withSetLeaf blake3 bytes).setLeaves id = store.setLeaves id :=
        Function.update_of_ne heq _ _
      rw [hsame]
      exact h.setLeaves id

theorem withSetRoot (h : WrittenFiles blake3 values before store) {root : SetRoot} {bytes : Bytes}
    (hstored : root ∈ values.setRoots) (hencode : encodeSetRoot root = .ok bytes)
    (hvalid : root.SlotsValid) :
    WrittenFiles blake3 values before (store.withSetRoot blake3 bytes) where
  states := h.states
  setRoots id := by
    by_cases heq : id = setRootId blake3 bytes
    · subst heq
      exact Or.inr ⟨root, hstored, bytes, hencode, rfl, Function.update_self _ _ _,
        decodeSetRoot_encodeSetRoot hencode hvalid⟩
    · have hsame : (store.withSetRoot blake3 bytes).setRoots id = store.setRoots id :=
        Function.update_of_ne heq _ _
      rw [hsame]
      exact h.setRoots id
  setLeaves := h.setLeaves

theorem withNewState (h : WrittenFiles blake3 values before store) {state : InventoryState}
    (hstored : state ∈ values.states) (hshape : state.validShape = true) :
    WrittenFiles blake3 values before (store.withNewState blake3 state) where
  states id := by
    by_cases heq : id = stateId blake3 (encodeState state)
    · subst heq
      exact Or.inr ⟨state, hstored, rfl, Function.update_self _ _ _,
        decodeState_encodeState hshape⟩
    · have hsame : (store.withNewState blake3 state).states id = store.states id :=
        Function.update_of_ne heq _ _
      rw [hsame]
      exact h.states id
  setRoots := h.setRoots
  setLeaves := h.setLeaves

theorem withNewHead (h : WrittenFiles blake3 values before store) {state : InventoryState}
    (hstored : state ∈ values.states) (hshape : state.validShape = true) :
    WrittenFiles blake3 values before (store.withNewHead blake3 state) where
  states := (h.withNewState hstored hshape).states
  setRoots := h.setRoots
  setLeaves := h.setLeaves

end WrittenFiles

/-- What starting an inventory stores. -/
def initialValues (blake3 : Bytes → Digest32) (projectId : ProjectId) : StoredValues where
  states := {state | ∃ bytes, encodeSetRoot (emptySetRoot projectId) = .ok bytes ∧
    firstState projectId (setRootId blake3 bytes) = state}
  setRoots := {emptySetRoot projectId}
  setLeaves := ∅

/-- What a transition stores: the leaf and the set root that the operation makes of the set
of the expected state, and the new state. -/
def transitionValues (blake3 : Bytes → Digest32) (store : InventoryStore) (projectId : ProjectId)
    (operation : InventoryOperation) (snapshotId : SnapshotId)
    (expectedHeadId operationId : String) : StoredValues where
  states := {state | ∃ transition : Transition blake3 store projectId operation snapshotId
    expectedHeadId operationId, transition.state = state}
  setRoots := {root | ∃ expected, ∃ mutation : Mutation blake3 store projectId expected.state
    operation snapshotId, parseLowerHexId "object" expectedHeadId = .ok expected.id ∧
      store.loadState blake3 expected.id projectId = .ok expected ∧ mutation.newRoot = root}
  setLeaves := {leaf | ∃ expected, ∃ mutation : Mutation blake3 store projectId expected.state
    operation snapshotId, parseLowerHexId "object" expectedHeadId = .ok expected.id ∧
      store.loadState blake3 expected.id projectId = .ok expected ∧ mutation.leaf = leaf}

section Hash

variable {blake3 : Bytes → Digest32} {used : Set Bytes} {store : InventoryStore}
variable {projectId : ProjectId} {state : InventoryState} {operation : InventoryOperation}
variable {snapshotId : SnapshotId}

/-- The new slot refers to a stored leaf, or to none. -/
theorem Mutation.newRoot_slotsValid
    (mutation : Mutation blake3 store projectId state operation snapshotId)
    (hid : ∀ bytes, mutation.leafBytes = some bytes → setLeafId blake3 bytes ≠ zeroDigest) :
    mutation.newRoot.SlotsValid := by
  obtain ⟨hroot, -⟩ := mutatedSet_eq_ok.mp mutation.mutated
  obtain ⟨-, -, -, -, hvalid, -⟩ := loadSetRoot_eq_ok.mp (loadStateRoot_eq_ok.mp hroot).1
  intro reference hreference
  rcases List.mem_or_eq_of_mem_set hreference with hold | hnew
  · exact hvalid reference hold
  · have hstored := mutation.leafStored
    rcases hbytes : mutation.leafBytes with _ | bytes
    · rw [hbytes] at hnew
      cases hnew
    · rw [hbytes] at hnew hstored
      obtain ⟨hids, hlimit, -⟩ := encodeSetLeaf_eq_ok.mp hstored
      obtain rfl := Option.some.inj hnew
      refine ⟨hid bytes hbytes, ?_⟩
      rw [UInt32.lt_iff_toNat_lt, UInt32.toNat_ofNat_of_lt' hlimit]
      exact List.length_pos_iff.mpr hids.nonempty

theorem Mutation.leafId_ne_zero
    (mutation : Mutation blake3 store projectId state operation snapshotId)
    (hnonzero : ∀ content ∈ used, blake3 content ≠ zeroDigest)
    (hwithin : ∀ after ∈ mutation.trace, Within used after) :
    ∀ bytes, mutation.leafBytes = some bytes → setLeafId blake3 bytes ≠ zeroDigest := by
  intro bytes hbytes
  have hmem : store.withSetLeaf blake3 bytes ∈ mutation.trace := by
    rw [Mutation.trace, hbytes]
    exact List.mem_cons_self
  exact hnonzero _ ((hwithin _ hmem).setLeaves _ bytes (Function.update_self _ _ _))

theorem Mutation.written {values : StoredValues}
    (mutation : Mutation blake3 store projectId state operation snapshotId)
    (hnonzero : ∀ content ∈ used, blake3 content ≠ zeroDigest)
    (hwithin : ∀ after ∈ mutation.trace, Within used after)
    (hroot : mutation.newRoot ∈ values.setRoots) (hleaf : mutation.leaf ∈ values.setLeaves) :
    (∀ after ∈ mutation.trace, WrittenFiles blake3 values store after) ∧
      WrittenFiles blake3 values store mutation.after := by
  have hwithLeaf : WrittenFiles blake3 values store mutation.withLeaf := by
    have hstored := mutation.leafStored
    rw [Mutation.withLeaf]
    rcases hbytes : mutation.leafBytes with _ | bytes
    · exact .refl store
    · rw [hbytes] at hstored
      exact (WrittenFiles.refl store).withSetLeaf hleaf hstored
  have hafter : WrittenFiles blake3 values store mutation.after :=
    hwithLeaf.withSetRoot hroot mutation.rootStored (mutation.newRoot_slotsValid
      (mutation.leafId_ne_zero hnonzero hwithin))
  refine ⟨fun after hmem => ?_, hafter⟩
  rw [Mutation.trace, List.mem_append, List.mem_singleton] at hmem
  rcases hmem with hmem | rfl
  · rw [Mutation.withLeaf] at hwithLeaf
    rcases hbytes : mutation.leafBytes with _ | bytes
    · rw [hbytes] at hmem
      cases hmem
    · rw [hbytes] at hmem hwithLeaf
      obtain rfl := List.mem_singleton.mp hmem
      exact hwithLeaf
  · exact hafter

theorem commitOutcome_written {values : StoredValues} {before : InventoryStore}
    {expectedId : ObjectId} (h : WrittenFiles blake3 values before store)
    (hstored : state ∈ values.states) (hshape : state.validShape = true) :
    ∀ after ∈ (commitOutcome blake3 store projectId expectedId state).1,
      WrittenFiles blake3 values before after := by
  intro after hafter
  rw [commitOutcome] at hafter
  rcases hhead : store.inventoryHead blake3 projectId with error | current
  · rw [hhead] at hafter
    cases hafter
  · simp only [hhead] at hafter
    by_cases hreplay : current.id = stateId blake3 (encodeState state)
    · rw [if_pos hreplay] at hafter
      cases hafter
    · rw [if_neg hreplay] at hafter
      by_cases hstale : current.id ≠ expectedId
      · rw [if_pos hstale] at hafter
        cases hafter
      · rw [if_neg hstale] at hafter
        rcases List.mem_cons.mp hafter with rfl | hafter
        · exact h.withNewState hstored hshape
        · obtain rfl := List.mem_singleton.mp hafter
          exact h.withNewHead hstored hshape

theorem mutation_mem_transitionValues {expectedHeadId : String} {expected : InventoryHead}
    (mutation : Mutation blake3 store projectId expected.state operation snapshotId)
    (hparsed : parseLowerHexId "object" expectedHeadId = .ok expected.id)
    (hloaded : store.loadState blake3 expected.id projectId = .ok expected)
    (operationId : String) :
    mutation.newRoot ∈ (transitionValues blake3 store projectId operation snapshotId
        expectedHeadId operationId).setRoots ∧
      mutation.leaf ∈ (transitionValues blake3 store projectId operation snapshotId
        expectedHeadId operationId).setLeaves :=
  ⟨⟨expected, mutation, hparsed, hloaded, rfl⟩, ⟨expected, mutation, hparsed, hloaded, rfl⟩⟩

theorem transition_written {expectedHeadId operationId : String}
    (hnonzero : ∀ content ∈ used, blake3 content ≠ zeroDigest)
    (hoperation : operationDomain ++ utf8 operationId ∈ used)
    (hwithin : ∀ after ∈ ((transitionInventory blake3 projectId operation snapshotId
      expectedHeadId operationId).run store).1, Within used after) :
    ∀ after ∈ ((transitionInventory blake3 projectId operation snapshotId expectedHeadId
      operationId).run store).1, WrittenFiles blake3 (transitionValues blake3 store projectId
        operation snapshotId expectedHeadId operationId) store after := by
  rcases @transitionInventory_cases blake3 store projectId operation snapshotId expectedHeadId
    operationId with ⟨error, hrun⟩ | ⟨expected, error, mutation, hparsed, hloaded, hrun⟩ |
      ⟨⟨transition⟩⟩
  · rw [hrun]
    exact fun _ hafter => nomatch hafter
  · rw [hrun] at hwithin ⊢
    obtain ⟨hroot, hleaf⟩ :=
      mutation_mem_transitionValues mutation hparsed hloaded operationId
    exact (mutation.written hnonzero hwithin hroot hleaf).1
  · have hid : inventoryOperationId blake3 operationId ≠ zeroDigest := hnonzero _ hoperation
    rw [transition.run hid] at hwithin ⊢
    obtain ⟨hroot, hleaf⟩ := mutation_mem_transitionValues transition.mutation transition.parsed
      transition.loaded operationId
    obtain ⟨htrace, hlast⟩ := transition.mutation.written hnonzero
      (fun after hafter => hwithin after (List.mem_append_left _ hafter)) hroot hleaf
    intro after hafter
    rcases List.mem_append.mp hafter with hafter | hafter
    · exact htrace after hafter
    · exact commitOutcome_written hlast ⟨transition, rfl⟩ (transition.state_validShape hid) after
        hafter

theorem emptySetRoot_slotsValid (projectId : ProjectId) :
    (emptySetRoot projectId).SlotsValid := by
  intro reference hreference
  cases List.eq_of_mem_replicate hreference

theorem initialize_written (snapshotNames : List String) :
    ∀ after ∈ ((initializeSnapshotInventory blake3 projectId snapshotNames).run store).1,
      WrittenFiles blake3 (initialValues blake3 projectId) store after := by
  obtain ⟨bytes, hbytes⟩ := encode_emptySetRoot projectId
  have hvalid := emptySetRoot_slotsValid projectId
  have hstored : firstState projectId (setRootId blake3 bytes) ∈
      (initialValues blake3 projectId).states := ⟨bytes, hbytes, rfl⟩
  rcases @initializeSnapshotInventory_cases blake3 store projectId snapshotNames bytes hbytes with
    ⟨-, hrun⟩ | ⟨error, hrun⟩ | ⟨-, hrun⟩
  · rw [hrun]
    exact fun _ hafter => nomatch hafter
  · rw [hrun]
    exact fun _ hafter => nomatch hafter
  · have hroot : WrittenFiles blake3 (initialValues blake3 projectId) store
        (store.withSetRoot blake3 bytes) :=
      (WrittenFiles.refl store).withSetRoot rfl hbytes hvalid
    rw [hrun]
    intro after hafter
    rcases List.mem_cons.mp hafter with rfl | hafter
    · exact hroot
    · rcases List.mem_cons.mp hafter with rfl | hafter
      · exact hroot.withNewState hstored rfl
      · obtain rfl := List.mem_singleton.mp hafter
        exact hroot.withNewHead hstored rfl

end Hash

/-- A repository without an inventory. -/
def noInventory : InventoryStore where
  path := "/repo"
  head := none
  states _ := none
  setRoots _ := none
  setLeaves _ := none

def firstProject : ProjectId := ⟨List.replicate 16 0, length_zeroProject⟩

end CheckPo
