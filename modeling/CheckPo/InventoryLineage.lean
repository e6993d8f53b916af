/-
Runs of the inventory: the states that lead from the head back to the first one, and
that the ids of the head are what these states add and remove.
-/
import CheckPo.InventoryAtomic

namespace CheckPo

/-- What the operations of a lineage, newest first, leave in the set. -/
def foldStates : List InventoryState → Finset SnapshotId
  | [] => ∅
  | state :: earlier =>
      match state.operation, state.snapshotId with
      | .add, some id => insert id (foldStates earlier)
      | .remove, some id => (foldStates earlier).erase id
      | _, _ => foldStates earlier

section Hash

variable {blake3 : Bytes → Digest32} {used : Set Bytes} {store after : InventoryStore}
variable {projectId : ProjectId} {call : TransitionCall} {head : InventoryHead}
variable {states : List InventoryState} {ids : Finset SnapshotId}

/-- The states with a parent, from a head along the parents, newest first.  The first
state has generation zero, and every other one follows its parent. -/
inductive Chain (blake3 : Bytes → Digest32) (store : InventoryStore) (projectId : ProjectId) :
    InventoryHead → List InventoryState → Prop
  | first {head : InventoryHead} (hload : store.loadState blake3 head.id projectId = .ok head)
      (hfirst : head.state.operation = .initialization) (hparent : head.state.parent = none)
      (hgeneration : head.state.generation = 0) : Chain blake3 store projectId head []
  | next {head parent : InventoryHead} {earlier : List InventoryState}
      (hload : store.loadState blake3 head.id projectId = .ok head)
      (hparent : head.state.parent = some parent.id)
      (hgeneration : checkedAdd parent.state.generation 1 = some head.state.generation)
      (h : Chain blake3 store projectId parent earlier) :
      Chain blake3 store projectId head (head.state :: earlier)

/-- The head, its lineage and its set. -/
structure Lineage (blake3 : Bytes → Digest32) (store : InventoryStore) (projectId : ProjectId)
    (head : InventoryHead) (states : List InventoryState) : Prop where
  current : store.inventoryHead blake3 projectId = .ok head
  chain : Chain blake3 store projectId head states
  set : HasSet blake3 store projectId head.state (foldStates states)

theorem Chain.loaded (h : Chain blake3 store projectId head states) :
    store.loadState blake3 head.id projectId = .ok head := by
  cases h with
  | first hload => exact hload
  | next hload => exact hload

theorem Chain.generation (h : Chain blake3 store projectId head states) :
    head.state.generation.toNat = states.length := by
  induction h with
  | first _ _ _ hgeneration =>
      rw [hgeneration]
      rfl
  | next _ _ hgeneration _ ih => rw [← checkedAdd_one_eq_some.mp hgeneration, ih, List.length_cons]

theorem Chain.keep (hkeeps : Keeps blake3 store after)
    (h : Chain blake3 store projectId head states) : Chain blake3 after projectId head states := by
  induction h with
  | first hload hfirst hparent hgeneration =>
      exact .first (hkeeps.states hload) hfirst hparent hgeneration
  | next hload hparent hgeneration _ ih =>
      exact .next (hkeeps.states hload) hparent hgeneration ih

theorem Lineage.keep (hkeeps : Keeps blake3 store after)
    (hhead : after.inventoryHead blake3 projectId = .ok head)
    (h : Lineage blake3 store projectId head states) :
    Lineage blake3 after projectId head states where
  current := hhead
  chain := h.chain.keep hkeeps
  set := hkeeps.hasSet h.set

/-- A state changes the set as its operation does. -/
theorem foldStates_cons {state : InventoryState} {snapshotId : SnapshotId}
    {changed : Finset SnapshotId} (hid : state.snapshotId = some snapshotId)
    (h : state.operation.apply (foldStates states) snapshotId = some changed) :
    foldStates (state :: states) = changed := by
  rcases hoperation : state.operation with _ | _ | _
  · rw [hoperation] at h
    cases h
  · rw [hoperation, InventoryOperation.apply] at h
    split_ifs at h
    simp only [foldStates, hoperation, hid]
    exact Option.some.inj h
  · rw [hoperation, InventoryOperation.apply] at h
    split_ifs at h
    simp only [foldStates, hoperation, hid]
    exact Option.some.inj h

/-- A call that does not add to a full leaf. -/
def Fits (blake3 : Bytes → Digest32) (store : InventoryStore) (projectId : ProjectId)
    (call : TransitionCall) : Prop :=
  ∀ head ids, store.inventoryHead blake3 projectId = .ok head →
    store.loadInventoryIds blake3 projectId head.state = .ok ids → ¬ Overfills head ids call

/-- A committed transition adds its state to the lineage. -/
theorem Lineage.next (h : Lineage blake3 store projectId head states)
    (hsafe : HashSafe blake3 used) (hhashes : Hashes blake3 used store projectId call)
    (hfits : Fits blake3 store projectId call)
    (transition : CallTransition blake3 store projectId call) (hexpected : head = transition.expected)
    (hafter : after = transition.mutation.after.withNewHead blake3 transition.state)
    (hnew : after.inventoryHead blake3 projectId = .ok ⟨transition.newId, transition.state⟩)
    (hkeeps : Keeps blake3 store after) :
    call.operation.apply (foldStates states) call.snapshotId =
        some (foldStates (transition.state :: states)) ∧
      Lineage blake3 after projectId ⟨transition.newId, transition.state⟩
        (transition.state :: states) := by
  subst hexpected hafter
  obtain ⟨changed, happly, hfound⟩ := CallTransition.changed transition hsafe hhashes h.set
  have hlimit := fits_of_not_overfills transition h.set happly
    (hfits _ _ h.current (loadInventoryIds_eq_ok.mpr h.set))
  have hfold : foldStates (transition.state :: states) = changed := foldStates_cons rfl happly
  have hchain : Chain blake3 _ projectId ⟨transition.newId, transition.state⟩
      (transition.state :: states) :=
    .next (loadState_of_inventoryHead hnew) rfl transition.generation_eq (h.chain.keep hkeeps)
  rw [hfold]
  exact ⟨happly, hnew, hchain, hfold ▸ (hfound changed).mpr ⟨rfl, hlimit⟩⟩

/-- Every write of a call keeps the lineage or adds the state of the call to it. -/
theorem Lineage.write (h : Lineage blake3 store projectId head states)
    (hsafe : HashSafe blake3 used) (hhashes : Hashes blake3 used store projectId call)
    (hfits : Fits blake3 store projectId call) :
    ∀ after ∈ ((call.invoke blake3 projectId).run store).1,
      Lineage blake3 after projectId head states ∨
        ∃ transition : CallTransition blake3 store projectId call,
          Lineage blake3 after projectId ⟨transition.newId, transition.state⟩
            (transition.state :: states) := by
  intro after hafter
  have hkeeps := keeps_trace hsafe hhashes h.current after hafter
  rcases @transitionInventory_cases blake3 store projectId call.operation call.snapshotId
    call.expectedHeadId call.operationId with ⟨error, hrun⟩ |
      ⟨expected, error, mutation, -, -, hrun⟩ | ⟨⟨transition⟩⟩
  · rw [TransitionCall.invoke, hrun] at hafter
    cases hafter
  · rw [TransitionCall.invoke, hrun] at hafter
    exact Or.inl (h.keep hkeeps ((mutation.inventoryHead_trace after hafter).trans h.current))
  · rcases CallTransition.head_trace transition hsafe hhashes h.current after hafter with
      hold | ⟨hexpected, heq, hnew⟩
    · exact Or.inl (h.keep hkeeps hold)
    · exact Or.inr ⟨transition, (h.next hsafe hhashes hfits transition hexpected heq hnew hkeeps).2⟩

/-- A call on the current head that returns has committed its state. -/
theorem Lineage.commit (h : Lineage blake3 store projectId head states)
    (hsafe : HashSafe blake3 used) (hhashes : Hashes blake3 used store projectId call)
    (hfits : Fits blake3 store projectId call) (hcurrent : call.expectedHeadId = head.id.toHex)
    {newHeadId : String} (hok : ((call.invoke blake3 projectId).run store).2 = .ok newHeadId) :
    ∃ transition : CallTransition blake3 store projectId call,
      call.operation.apply (foldStates states) call.snapshotId =
        some (foldStates (transition.state :: states)) ∧
      Lineage blake3 ((call.invoke blake3 projectId).final store) projectId
        ⟨transition.newId, transition.state⟩ (transition.state :: states) := by
  have hload := loadState_of_inventoryHead h.current
  rcases @transitionInventory_cases blake3 store projectId call.operation call.snapshotId
    call.expectedHeadId call.operationId with ⟨error, hrun⟩ |
      ⟨expected, error, mutation, -, -, hrun⟩ | ⟨⟨transition⟩⟩
  · rw [TransitionCall.invoke, hrun] at hok
    cases hok
  · rw [TransitionCall.invoke, hrun] at hok
    cases hok
  · have hid : transition.expected.id = head.id :=
      toHex_injective ((toHex_of_parse transition.parsed).trans hcurrent)
    have hexpected : head = transition.expected := by
      have hloaded := transition.loaded
      rw [hid, hload] at hloaded
      exact Except.ok.inj hloaded
    have hkeeps := keeps_trace hsafe hhashes h.current
    have hcommits := CallTransition.commits transition hsafe hhashes (hexpected ▸ h.current)
    have houtcome := CallTransition.outcome transition (CallTransition.id_ne_zero hsafe hhashes)
      h.current
    refine ⟨transition, ?_⟩
    rcases hrun : (call.invoke blake3 projectId).run store with ⟨trace, result⟩
    rw [hrun] at houtcome hok hkeeps hcommits
    rw [Durable.final, hrun]
    cases houtcome with
    | collision => cases hok
    | stale => cases hok
    | replay heq =>
        have hgeneration := checkedAdd_one_eq_some.mp transition.generation_eq
        rw [← hexpected, heq] at hgeneration
        exact absurd hgeneration (Nat.succ_ne_self _)
    | commit hne =>
        have hnew := (hcommits (hexpected ▸ hne) rfl).newHead
        have hlast : Durable.last store (transition.mutation.trace ++
            [transition.mutation.after.withNewState blake3 transition.state,
              transition.mutation.after.withNewHead blake3 transition.state]) =
            transition.mutation.after.withNewHead blake3 transition.state := by
          rw [Durable.last_append]
          rfl
        rw [hlast]
        exact h.next hsafe hhashes hfits transition hexpected rfl hnew
          (hkeeps _ (List.mem_append_right _ (List.mem_cons_of_mem _ (List.mem_singleton_self _))))

/-! The first state. -/

theorem slot_emptySetRoot (idPrefix : UInt8) : (emptySetRoot projectId).slot idPrefix = none := by
  rw [SetRoot.slot, emptySetRoot, List.getD_replicate]
  exact UInt8.toNat_lt idPrefix

theorem loadStateRoot_firstState {bytes : Bytes}
    (hbytes : encodeSetRoot (emptySetRoot projectId) = .ok bytes) :
    ((store.withSetRoot blake3 bytes).withNewHead blake3
      (firstState projectId (setRootId blake3 bytes))).loadStateRoot blake3 projectId
        (firstState projectId (setRootId blake3 bytes)) = .ok (emptySetRoot projectId) :=
  loadStateRoot_eq_ok.mpr ⟨loadSetRoot_eq_ok.mpr ⟨bytes, hbytes, Function.update_self _ _ _, rfl,
    emptySetRoot_slotsValid projectId, rfl⟩, rfl⟩

/-- A fresh inventory has no states with a parent, and the empty set. -/
theorem initialize_lineage {snapshotNames : List String} (hfresh : store.head = none)
    (hok : ((initializeSnapshotInventory blake3 projectId snapshotNames).run store).2 = .ok ()) :
    ∃ head, Lineage blake3 ((initializeSnapshotInventory blake3 projectId snapshotNames).final store)
      projectId head [] := by
  obtain ⟨bytes, hbytes⟩ := encode_emptySetRoot projectId
  rw [Durable.final]
  rcases @initializeSnapshotInventory_cases blake3 store projectId snapshotNames bytes hbytes with
    ⟨hhead, -⟩ | ⟨error, hrun⟩ | ⟨-, hrun⟩
  · exact absurd hfresh hhead
  · rw [hrun] at hok
    cases hok
  · rw [hrun]
    have hhead := @inventoryHead_committed blake3 (store.withSetRoot blake3 bytes) projectId
      (firstState projectId (setRootId blake3 bytes)) rfl rfl
    refine ⟨_, hhead, .first (loadState_of_inventoryHead hhead) rfl rfl rfl, ?_⟩
    refine ⟨_, loadStateRoot_firstState hbytes, rfl, fun idPrefix => ?_⟩
    rw [slot_emptySetRoot]
    exact shard_empty

/-! What a lineage says of the inventory. -/

/-- The count that a set root has for a slot. -/
def slotCount (slot : Option LeafRef) : Nat := slot.elim 0 fun reference => reference.count.toNat

theorem HoldsSlot.length_eq {idPrefix : UInt8} {slot : Option LeafRef} {leafIds : List SnapshotId}
    (h : HoldsSlot blake3 store projectId idPrefix slot leafIds) :
    slotCount slot = leafIds.length := by
  cases slot with
  | none =>
      obtain rfl : leafIds = [] := h
      rfl
  | some reference => exact (loadSlotLeaf_valid h).2.2.2.symm

/-- The set root of a state counts its leaves, and every leaf is sorted, without
repetition, and holds only ids of its first byte. -/
structure LeavesSound (blake3 : Bytes → Digest32) (store : InventoryStore) (projectId : ProjectId)
    (state : InventoryState) (root : SetRoot) : Prop where
  loaded : store.loadStateRoot blake3 projectId state = .ok root
  count : state.count.toNat = ∑ idPrefix, slotCount (root.slot idPrefix)
  leaves : ∀ idPrefix reference, root.slot idPrefix = some reference →
    ∃ leaf, store.loadSlotLeaf blake3 projectId reference idPrefix = .ok leaf ∧
      leaf.ids.length = reference.count.toNat ∧ leaf.ids.Pairwise (· < ·) ∧ leaf.ids.Nodup ∧
      ∀ id ∈ leaf.ids, id.firstByte = idPrefix

theorem HasSet.leavesSound {state : InventoryState} (h : HasSet blake3 store projectId state ids) :
    ∃ root, LeavesSound blake3 store projectId state root := by
  obtain ⟨root, hroot, hcount, hslots⟩ := h
  refine ⟨root, hroot, ?_, fun idPrefix reference hreference => ?_⟩
  · rw [← (loadStateRoot_eq_ok.mp hroot).2, hcount, ← sum_length_shard Digest32.firstByte]
    exact Finset.sum_congr rfl fun idPrefix _ => (hslots idPrefix).length_eq.symm
  · have hholds := hslots idPrefix
    rw [hreference] at hholds
    have hvalid := (loadSlotLeaf_valid hholds).2.2.1
    exact ⟨_, hholds, (loadSlotLeaf_valid hholds).2.2.2, hvalid.increasing,
      hvalid.increasing.imp fun hlt => hlt.ne, hvalid.firstByte⟩

/-- A call whose operation does not apply to the expected set stores nothing. -/
theorem rejected_of_expected {expected : InventoryHead}
    (hload : store.loadState blake3 expected.id projectId = .ok expected)
    (hexpected : expected.id.toHex = call.expectedHeadId)
    (hset : HasSet blake3 store projectId expected.state ids)
    (h : call.operation.apply ids call.snapshotId = none) :
    ∃ error, (call.invoke blake3 projectId).run store = ([], .error error) := by
  rw [TransitionCall.invoke, transitionInventory]
  by_cases hnamed : call.operationId = ""
  · rw [if_pos hnamed]
    exact ⟨_, rfl⟩
  · rw [if_neg hnamed, Durable.lift_bind_run, ← hexpected, parseLowerHexId_toHex]
    simp only [Durable.inspect_bind_run, hload]
    have hmutate : ∃ error, (mutateSet blake3 projectId expected.state call.operation
        call.snapshotId).run store = ([], .error error) := by
      rw [mutateSet, Durable.inspect_bind_run]
      rcases hmutated : store.mutatedSet blake3 projectId expected.state call.operation
        call.snapshotId with error | ⟨root, leaf, count⟩
      · exact ⟨error, rfl⟩
      · obtain ⟨-, _, happly, -⟩ := hset.mutatedSet_eq_ok.mp hmutated
        rw [h] at happly
        cases happly
    obtain ⟨error, herror⟩ := hmutate
    exact ⟨error, Durable.bind_run_error herror⟩

/-- What a lineage says of the inventory: the set is what the states add and remove, the
counts and the generation are right, and a call that does not apply is rejected. -/
structure SetSemantics (blake3 : Bytes → Digest32) (used : Set Bytes) (store : InventoryStore)
    (projectId : ProjectId) (head : InventoryHead) (states : List InventoryState) : Prop where
  chain : Chain blake3 store projectId head states
  ids : store.loadInventoryIds blake3 projectId head.state = .ok (foldStates states)
  count : head.state.count.toNat = (foldStates states).card
  leaves : ∃ root, LeavesSound blake3 store projectId head.state root
  generation : head.state.generation.toNat = states.length
  /-- Adding what the expected set holds, or removing what it does not hold. -/
  rejects : ∀ (call : TransitionCall) expected ids, store.loadState blake3 expected.id projectId = .ok expected →
    expected.id.toHex = call.expectedHeadId →
      store.loadInventoryIds blake3 projectId expected.state = .ok ids →
        call.operation.apply ids call.snapshotId = none →
          ∃ error, (call.invoke blake3 projectId).run store = ([], .error error)
  /-- Adding what the current set holds, or removing what it does not hold, unless the
  head is the state that this very call has committed before. -/
  rejectsCurrent : ∀ call : TransitionCall, Hashes blake3 used store projectId call →
    call.operation.apply (foldStates states) call.snapshotId = none →
      ¬ Records blake3 head call →
        (∃ error, ((call.invoke blake3 projectId).run store).2 = .error error) ∧
          ∀ after ∈ ((call.invoke blake3 projectId).run store).1,
            after.inventoryHead blake3 projectId = .ok head

theorem Lineage.semantics (h : Lineage blake3 store projectId head states)
    (hsafe : HashSafe blake3 used) :
    SetSemantics blake3 used store projectId head states where
  chain := h.chain
  ids := loadInventoryIds_eq_ok.mpr h.set
  count := by
    obtain ⟨root, hroot, hcount, -⟩ := h.set
    rw [← (loadStateRoot_eq_ok.mp hroot).2, hcount]
  leaves := h.set.leavesSound
  generation := h.chain.generation
  rejects call expected ids hload hexpected hids hnone :=
    rejected_of_expected hload hexpected (loadInventoryIds_eq_ok.mp hids) hnone
  rejectsCurrent call hhashes hnone hrecords := by
    by_cases hexpected : call.expectedHeadId = head.id.toHex
    · obtain ⟨error, hrun⟩ := rejected_of_expected (loadState_of_inventoryHead h.current)
        hexpected.symm h.set hnone
      rw [hrun]
      exact ⟨⟨error, rfl⟩, fun _ hafter => nomatch hafter⟩
    · exact stale_fails hsafe hhashes h.current hexpected hrecords

end Hash

end CheckPo
