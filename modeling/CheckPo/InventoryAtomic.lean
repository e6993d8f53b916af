/-
A transition of the inventory is atomic and can be repeated: wherever it is cut short
the head denotes the old set or the new one, and the same call again returns the same
head.  The new set can be read unless the changed leaf is full.
-/
import CheckPo.InventoryMutation

namespace CheckPo

/-- The arguments of `transition_inventory`. -/
structure TransitionCall where
  operation : InventoryOperation
  snapshotId : SnapshotId
  expectedHeadId : String
  operationId : String
deriving DecidableEq

def TransitionCall.invoke (blake3 : Bytes → Digest32) (projectId : ProjectId)
    (call : TransitionCall) : InventoryM String :=
  transitionInventory blake3 projectId call.operation call.snapshotId call.expectedHeadId
    call.operationId

section Hash

variable {blake3 : Bytes → Digest32} {used : Set Bytes} {store after : InventoryStore}
variable {projectId : ProjectId} {call : TransitionCall} {head : InventoryHead}
variable {ids : Finset SnapshotId}

/-- The transition that a call makes. -/
abbrev CallTransition (blake3 : Bytes → Digest32) (store : InventoryStore)
    (projectId : ProjectId) (call : TransitionCall) : Type :=
  Transition blake3 store projectId call.operation call.snapshotId call.expectedHeadId
    call.operationId

/-- The contents that a call hashes. -/
structure Hashes (blake3 : Bytes → Digest32) (used : Set Bytes) (store : InventoryStore)
    (projectId : ProjectId) (call : TransitionCall) : Prop where
  before : Within used store
  trace : ∀ after ∈ ((call.invoke blake3 projectId).run store).1, Within used after
  operationId : operationDomain ++ utf8 call.operationId ∈ used
  state : ∀ transition : CallTransition blake3 store projectId call,
    stateDomain ++ encodeState transition.state ∈ used

/-- The head is the state that this call commits. -/
structure Records (blake3 : Bytes → Digest32) (head : InventoryHead) (call : TransitionCall) :
    Prop where
  operation : head.state.operation = call.operation
  snapshotId : head.state.snapshotId = some call.snapshotId
  parent : ∃ parent, head.state.parent = some parent ∧ parent.toHex = call.expectedHeadId
  operationId : head.state.operationId = inventoryOperationId blake3 call.operationId

/-- What a crash or a retry of a call may find. -/
structure Atomic (blake3 : Bytes → Digest32) (used : Set Bytes) (store : InventoryStore)
    (projectId : ProjectId) (head : InventoryHead) (ids : Finset SnapshotId)
    (call : TransitionCall) : Prop where
  /-- Wherever the call is cut short, the old set can be read, and the head denotes it or
  the new set, which can then be read. -/
  crash : ∀ after ∈ ((call.invoke blake3 projectId).run store).1,
    after.loadState blake3 head.id projectId = .ok head ∧
      after.loadInventoryIds blake3 projectId head.state = .ok ids ∧
      (after.inventoryHead blake3 projectId = .ok head ∨
        ∃ new changed, after.inventoryHead blake3 projectId = .ok new ∧
          call.operation.apply ids call.snapshotId = some changed ∧
          after.loadInventoryIds blake3 projectId new.state = .ok changed)
  /-- From wherever the call is cut short, or its end, the same call returns the same head
  and leaves a head that is already there; no other call could have committed that head. -/
  retry : ∀ newHeadId, ((call.invoke blake3 projectId).run store).2 = .ok newHeadId →
    ∃ new, new.id.toHex = newHeadId ∧ Records blake3 new call ∧
      (∀ other, operationDomain ++ utf8 other.operationId ∈ used → Records blake3 new other →
        other = call) ∧
      ∀ after ∈ store :: ((call.invoke blake3 projectId).run store).1,
        ((call.invoke blake3 projectId).run after).2 = .ok newHeadId ∧
          ((call.invoke blake3 projectId).final after).inventoryHead blake3 projectId = .ok new ∧
          (after.inventoryHead blake3 projectId = .ok new →
            ∀ again ∈ ((call.invoke blake3 projectId).run after).1,
              again.inventoryHead blake3 projectId = .ok new)
  /-- A call whose expected head is another one fails, unless the head is what it commits. -/
  stale : call.expectedHeadId ≠ head.id.toHex → ¬ Records blake3 head call →
    (∃ error, ((call.invoke blake3 projectId).run store).2 = .error error) ∧
      ∀ after ∈ ((call.invoke blake3 projectId).run store).1,
        after.inventoryHead blake3 projectId = .ok head

/-- A head records one call. -/
theorem Records.unique (hsafe : HashSafe blake3 used) {left right : TransitionCall}
    (hleft : Records blake3 head left) (hright : Records blake3 head right)
    (hleftUsed : operationDomain ++ utf8 left.operationId ∈ used)
    (hrightUsed : operationDomain ++ utf8 right.operationId ∈ used) : left = right := by
  obtain ⟨operation, snapshotId, expectedHeadId, operationId⟩ := left
  obtain ⟨parent, hparent, hexpected⟩ := hleft.parent
  obtain ⟨_, hparentRight, hexpectedRight⟩ := hright.parent
  obtain rfl := Option.some.inj (hparent.symm.trans hparentRight)
  have hcontent := hsafe.injective _ hleftUsed _ hrightUsed
    (hleft.operationId.symm.trans hright.operationId)
  have hoperationId := utf8_injective (List.append_cancel_left hcontent)
  have hsnapshot := Option.some.inj (hleft.snapshotId.symm.trans hright.snapshotId)
  have hoperation := hleft.operation.symm.trans hright.operation
  cases right
  simp_all

/-- The call adds a missing id to the current set, and the leaf of its first byte is full. -/
structure Overfills (head : InventoryHead) (ids : Finset SnapshotId) (call : TransitionCall) :
    Prop where
  operation : call.operation = .add
  current : call.expectedHeadId = head.id.toHex
  named : call.operationId ≠ ""
  missing : call.snapshotId ∉ ids
  generation : head.state.generation.toNat + 1 < 2 ^ 64
  full : (shard Digest32.firstByte ids call.snapshotId.firstByte).length = maxLeafIds

/-! The transition of a call, and the same transition later. -/

theorem loadState_of_inventoryHead (h : store.inventoryHead blake3 projectId = .ok head) :
    store.loadState blake3 head.id projectId = .ok head := by
  obtain ⟨_, _, _, id, _, hload⟩ := inventoryHead_eq_ok.mp h
  obtain rfl := (loadState_eq_ok.mp hload).1
  exact hload

theorem Mutation.inventoryHead_trace {state : InventoryState} {operation : InventoryOperation}
    {snapshotId : SnapshotId}
    (mutation : Mutation blake3 store projectId state operation snapshotId) :
    ∀ after ∈ mutation.trace,
      after.inventoryHead blake3 projectId = store.inventoryHead blake3 projectId := by
  intro after hafter
  rw [Mutation.trace, List.mem_append, List.mem_singleton] at hafter
  rcases hafter with hafter | rfl
  · rcases hbytes : mutation.leafBytes with _ | bytes
    · rw [hbytes] at hafter
      cases hafter
    · rw [hbytes] at hafter
      obtain rfl := List.mem_singleton.mp hafter
      exact inventoryHead_withSetLeaf bytes
  · exact mutation.inventoryHead_after

namespace Keeps

theorem leafBefore (h : Keeps blake3 store after) {root : SetRoot} {idPrefix : UInt8}
    {leaf : SetLeaf} (hleaf : store.leafBefore blake3 projectId root idPrefix = .ok leaf) :
    after.leafBefore blake3 projectId root idPrefix = .ok leaf := by
  obtain ⟨leafIds, hholds, rfl⟩ := leafBefore_eq_ok.mp hleaf
  exact leafBefore_eq_ok.mpr ⟨leafIds, h.holdsSlot hholds, rfl⟩

theorem mutatedSet (h : Keeps blake3 store after) {state : InventoryState}
    {operation : InventoryOperation} {snapshotId : SnapshotId} {root : SetRoot} {leaf : SetLeaf}
    {count : UInt64}
    (hmutated : store.mutatedSet blake3 projectId state operation snapshotId =
      .ok (root, leaf, count)) :
    after.mutatedSet blake3 projectId state operation snapshotId = .ok (root, leaf, count) := by
  obtain ⟨hroot, before, hbefore, hrest⟩ := mutatedSet_eq_ok.mp hmutated
  exact mutatedSet_eq_ok.mpr ⟨h.stateRoot hroot, before, h.leafBefore hbefore, hrest⟩

end Keeps

/-- Where everything is kept, the same mutation is made. -/
def Mutation.transfer {state : InventoryState} {operation : InventoryOperation}
    {snapshotId : SnapshotId}
    (mutation : Mutation blake3 store projectId state operation snapshotId)
    (hkeeps : Keeps blake3 store after) :
    Mutation blake3 after projectId state operation snapshotId where
  root := mutation.root
  leaf := mutation.leaf
  count := mutation.count
  leafBytes := mutation.leafBytes
  rootBytes := mutation.rootBytes
  mutated := hkeeps.mutatedSet mutation.mutated
  leafStored := mutation.leafStored
  rootStored := mutation.rootStored

/-- Where everything is kept, the same transition is made. -/
def Transition.transfer {operation : InventoryOperation} {snapshotId : SnapshotId}
    {expectedHeadId operationId : String}
    (transition : Transition blake3 store projectId operation snapshotId expectedHeadId
      operationId) (hkeeps : Keeps blake3 store after) :
    Transition blake3 after projectId operation snapshotId expectedHeadId operationId where
  expected := transition.expected
  named := transition.named
  parsed := transition.parsed
  loaded := hkeeps.states transition.loaded
  mutation := transition.mutation.transfer hkeeps
  generation := transition.generation
  generation_eq := transition.generation_eq

/-- How a transition ends, from the current head: the head is its state already, or has
the id of its state by accident, or is not the expected one, or is replaced. -/
inductive Outcome (transition : CallTransition blake3 store projectId call)
    (head : InventoryHead) : List InventoryStore × CheckPoResult String → Prop
  | replay (h : head = ⟨transition.newId, transition.state⟩) :
      Outcome transition head (transition.mutation.trace, .ok transition.newId.toHex)
  | collision (error : CheckPoError) (hid : head.id = transition.newId)
      (hstate : head.state ≠ transition.state) :
      Outcome transition head (transition.mutation.trace, .error error)
  | stale (error : CheckPoError) (hid : head.id ≠ transition.newId)
      (hexpected : head.id ≠ transition.expected.id) :
      Outcome transition head (transition.mutation.trace, .error error)
  | commit (hid : head.id ≠ transition.newId) (hexpected : head = transition.expected) :
      Outcome transition head (transition.mutation.trace ++
        [transition.mutation.after.withNewState blake3 transition.state,
          transition.mutation.after.withNewHead blake3 transition.state],
        .ok transition.newId.toHex)

theorem CallTransition.outcome (transition : CallTransition blake3 store projectId call)
    (hid : inventoryOperationId blake3 call.operationId ≠ zeroDigest)
    (hhead : store.inventoryHead blake3 projectId = .ok head) :
    Outcome transition head ((call.invoke blake3 projectId).run store) := by
  have hload := loadState_of_inventoryHead hhead
  rw [TransitionCall.invoke, transition.run hid, commitOutcome,
    transition.mutation.inventoryHead_after, hhead]
  simp only
  by_cases hreplay : head.id = stateId blake3 (encodeState transition.state)
  · rw [if_pos hreplay]
    simp only [List.append_nil]
    by_cases hstate : head.state = transition.state
    · rw [if_pos hstate]
      apply Outcome.replay
      rw [Transition.newId, ← hreplay, ← hstate]
    · rw [if_neg hstate]
      exact .collision _ hreplay hstate
  · rw [if_neg hreplay]
    by_cases hstale : head.id ≠ transition.expected.id
    · rw [if_pos hstale]
      simp only [List.append_nil]
      exact .stale _ hreplay hstale
    · rw [if_neg hstale]
      apply Outcome.commit hreplay
      have hexpected := transition.loaded
      rw [← not_not.mp hstale, hload] at hexpected
      exact Except.ok.inj hexpected

theorem CallTransition.records (transition : CallTransition blake3 store projectId call) :
    Records blake3 ⟨transition.newId, transition.state⟩ call where
  operation := rfl
  snapshotId := rfl
  parent := ⟨transition.expected.id, rfl, toHex_of_parse transition.parsed⟩
  operationId := rfl

/-! The stores that a transition passes through. -/

theorem hasSet_withNewHead {state new : InventoryState} :
    HasSet blake3 (store.withNewHead blake3 new) projectId state ids ↔
      HasSet blake3 store projectId state ids := Iff.rfl

theorem HasSet.leaf_le {state : InventoryState} (h : HasSet blake3 store projectId state ids)
    (idPrefix : UInt8) : (shard Digest32.firstByte ids idPrefix).length ≤ maxLeafIds := by
  obtain ⟨root, -, -, hslots⟩ := h
  have hslot := hslots idPrefix
  rcases hreference : root.slot idPrefix with _ | reference
  · rw [hreference] at hslot
    have hnil : shard Digest32.firstByte ids idPrefix = [] := hslot
    rw [hnil]
    exact Nat.zero_le _
  · rw [hreference, HoldsSlot, loadSlotLeaf_eq_ok, loadSetLeaf_eq_ok] at hslot
    obtain ⟨⟨bytes, hencode, -, hlimit, -⟩, -⟩ := hslot
    exact (leaf_readable_iff hencode).mp hlimit

namespace CallTransition

variable (transition : CallTransition blake3 store projectId call)

theorem id_ne_zero (hsafe : HashSafe blake3 used)
    (hhashes : Hashes blake3 used store projectId call) :
    inventoryOperationId blake3 call.operationId ≠ zeroDigest :=
  hsafe.nonzero _ hhashes.operationId

/-- The writes of the set come first. -/
theorem mutation_subset (hid : inventoryOperationId blake3 call.operationId ≠ zeroDigest) :
    ∀ after ∈ transition.mutation.trace, after ∈ ((call.invoke blake3 projectId).run store).1 := by
  intro after hafter
  rw [TransitionCall.invoke, transition.run hid]
  exact List.mem_append_left _ hafter

theorem keeps_mutation (hsafe : HashSafe blake3 used)
    (hhashes : Hashes blake3 used store projectId call) :
    ∀ after ∈ transition.mutation.trace, Keeps blake3 store after :=
  transition.mutation.keeps_trace hsafe hhashes.before fun after hafter =>
    hhashes.trace after (transition.mutation_subset (id_ne_zero hsafe hhashes) after hafter)

/-- What is read at the end of a committed transition. -/
structure Commits (transition : CallTransition blake3 store projectId call) : Prop where
  keepsState : Keeps blake3 store
    (transition.mutation.after.withNewState blake3 transition.state)
  keepsHead : Keeps blake3 store (transition.mutation.after.withNewHead blake3 transition.state)
  oldHead : (transition.mutation.after.withNewState blake3 transition.state).inventoryHead blake3
    projectId = .ok transition.expected
  newHead : (transition.mutation.after.withNewHead blake3 transition.state).inventoryHead blake3
    projectId = .ok ⟨transition.newId, transition.state⟩

theorem commits (hsafe : HashSafe blake3 used)
    (hhashes : Hashes blake3 used store projectId call)
    (hhead : store.inventoryHead blake3 projectId = .ok transition.expected)
    (hid : transition.expected.id ≠ transition.newId)
    (hrun : ((call.invoke blake3 projectId).run store).1 = transition.mutation.trace ++
      [transition.mutation.after.withNewState blake3 transition.state,
        transition.mutation.after.withNewHead blake3 transition.state]) :
    transition.Commits := by
  have hzero := id_ne_zero hsafe hhashes
  have hafter := transition.mutation.after_mem_trace
  have hkeeps := transition.keeps_mutation hsafe hhashes _ hafter
  have hwithin := hhashes.trace _ (transition.mutation_subset hzero _ hafter)
  have hstate : Within used (transition.mutation.after.withNewState blake3 transition.state) := by
    apply hhashes.trace
    rw [hrun]
    simp
  have hkeepsState := hkeeps.trans (.withState hsafe hwithin hstate)
  refine ⟨hkeepsState, hkeepsState.trans (.withHead _), ?_,
    inventoryHead_committed (transition.state_validShape hzero) rfl⟩
  exact inventoryHead_withState (transition.mutation.inventoryHead_after.trans hhead) hid

end CallTransition

/-- Every write keeps what could be read. -/
theorem keeps_trace (hsafe : HashSafe blake3 used)
    (hhashes : Hashes blake3 used store projectId call)
    (hhead : store.inventoryHead blake3 projectId = .ok head) :
    ∀ after ∈ ((call.invoke blake3 projectId).run store).1, Keeps blake3 store after := by
  have hid := CallTransition.id_ne_zero hsafe hhashes
  rcases @transitionInventory_cases blake3 store projectId call.operation call.snapshotId
    call.expectedHeadId call.operationId with ⟨error, hrun⟩ |
      ⟨expected, error, mutation, -, -, hrun⟩ | ⟨⟨transition⟩⟩
  · rw [TransitionCall.invoke, hrun]
    exact fun _ hafter => nomatch hafter
  · have htrace := hhashes.trace
    rw [TransitionCall.invoke, hrun] at htrace ⊢
    exact mutation.keeps_trace hsafe hhashes.before htrace
  · have hmutation := CallTransition.keeps_mutation transition hsafe hhashes
    have hcommits := CallTransition.commits transition hsafe hhashes
    have houtcome := CallTransition.outcome transition hid hhead
    rcases hrun : (call.invoke blake3 projectId).run store with ⟨trace, result⟩
    rw [hrun] at houtcome
    cases houtcome with
    | replay => exact hmutation
    | collision => exact hmutation
    | stale => exact hmutation
    | commit hid hexpected =>
        subst hexpected
        have h := hcommits hhead hid (by rw [hrun])
        intro after hafter
        rcases List.mem_append.mp hafter with hafter | hafter
        · exact hmutation after hafter
        · rcases List.mem_cons.mp hafter with rfl | hafter
          · exact h.keepsState
          · obtain rfl := List.mem_singleton.mp hafter
            exact h.keepsHead

/-- The head stays until the last write of a transition. -/
theorem CallTransition.head_trace (transition : CallTransition blake3 store projectId call)
    (hsafe : HashSafe blake3 used) (hhashes : Hashes blake3 used store projectId call)
    (hhead : store.inventoryHead blake3 projectId = .ok head) :
    ∀ after ∈ ((call.invoke blake3 projectId).run store).1,
      after.inventoryHead blake3 projectId = .ok head ∨
        head = transition.expected ∧
          after = transition.mutation.after.withNewHead blake3 transition.state ∧
          after.inventoryHead blake3 projectId = .ok ⟨transition.newId, transition.state⟩ := by
  have hmutation : ∀ after ∈ transition.mutation.trace,
      after.inventoryHead blake3 projectId = .ok head := fun after hafter =>
    (transition.mutation.inventoryHead_trace after hafter).trans hhead
  have hcommits := CallTransition.commits transition hsafe hhashes
  have houtcome := transition.outcome (id_ne_zero hsafe hhashes) hhead
  rcases hrun : (call.invoke blake3 projectId).run store with ⟨trace, result⟩
  rw [hrun] at houtcome
  cases houtcome with
  | replay => exact fun after hafter => Or.inl (hmutation after hafter)
  | collision => exact fun after hafter => Or.inl (hmutation after hafter)
  | stale => exact fun after hafter => Or.inl (hmutation after hafter)
  | commit hid hexpected =>
      subst hexpected
      have h := hcommits hhead hid (by rw [hrun])
      intro after hafter
      rcases List.mem_append.mp hafter with hafter | hafter
      · exact Or.inl (hmutation after hafter)
      · rcases List.mem_cons.mp hafter with rfl | hafter
        · exact Or.inl h.oldHead
        · obtain rfl := List.mem_singleton.mp hafter
          exact Or.inr ⟨rfl, rfl, h.newHead⟩

/-- The sets of a transition from a set that can be read. -/
theorem CallTransition.changed (transition : CallTransition blake3 store projectId call)
    (hsafe : HashSafe blake3 used) (hhashes : Hashes blake3 used store projectId call)
    (hset : HasSet blake3 store projectId transition.expected.state ids) :
    ∃ changed, call.operation.apply ids call.snapshotId = some changed ∧
      ∀ found, HasSet blake3 (transition.mutation.after.withNewHead blake3 transition.state)
          projectId transition.state found ↔
        found = changed ∧
          (shard Digest32.firstByte changed call.snapshotId.firstByte).length ≤ maxLeafIds := by
  obtain ⟨-, changed, happly, -⟩ := hset.mutatedSet_eq_ok.mp transition.mutation.mutated
  refine ⟨changed, happly, fun found => ?_⟩
  rw [hasSet_withNewHead]
  exact transition.mutation.hasSet_iff hsafe hhashes.before (fun after hafter =>
    hhashes.trace after (transition.mutation_subset (id_ne_zero hsafe hhashes) after hafter))
    hset rfl rfl happly

/-- Only an Add to a full leaf makes a leaf too long. -/
theorem fits_of_not_overfills (transition : CallTransition blake3 store projectId call)
    (hset : HasSet blake3 store projectId transition.expected.state ids)
    {changed : Finset SnapshotId}
    (happly : call.operation.apply ids call.snapshotId = some changed)
    (hfits : ¬ Overfills transition.expected ids call) :
    (shard Digest32.firstByte changed call.snapshotId.firstByte).length ≤ maxLeafIds := by
  have hle := hset.leaf_le call.snapshotId.firstByte
  rcases hoperation : call.operation with _ | _ | _
  · rw [hoperation] at happly
    cases happly
  · rw [hoperation, InventoryOperation.apply] at happly
    split_ifs at happly with hmem
    cases happly
    have hnot : (shard Digest32.firstByte ids call.snapshotId.firstByte).length ≠ maxLeafIds := by
      intro hfull
      apply hfits
      refine ⟨hoperation, (toHex_of_parse transition.parsed).symm, transition.named, hmem, ?_,
        hfull⟩
      rw [checkedAdd_one_eq_some.mp transition.generation_eq]
      exact UInt64.toNat_lt _
    rw [length_shard_insert Digest32.firstByte hmem]
    exact Nat.lt_of_le_of_ne hle hnot
  · rw [hoperation, InventoryOperation.apply] at happly
    split_ifs at happly with hmem
    cases happly
    exact (length_shard_le_of_subset (Finset.erase_subset _ _)).trans hle

theorem crash_of_fits (hsafe : HashSafe blake3 used)
    (hhashes : Hashes blake3 used store projectId call)
    (hhead : store.inventoryHead blake3 projectId = .ok head)
    (hset : HasSet blake3 store projectId head.state ids) (hfits : ¬ Overfills head ids call) :
    ∀ after ∈ ((call.invoke blake3 projectId).run store).1,
      after.loadState blake3 head.id projectId = .ok head ∧
        after.loadInventoryIds blake3 projectId head.state = .ok ids ∧
        (after.inventoryHead blake3 projectId = .ok head ∨
          ∃ new changed, after.inventoryHead blake3 projectId = .ok new ∧
            call.operation.apply ids call.snapshotId = some changed ∧
            after.loadInventoryIds blake3 projectId new.state = .ok changed) := by
  intro after hafter
  have hkeeps := keeps_trace hsafe hhashes hhead after hafter
  refine ⟨hkeeps.states (loadState_of_inventoryHead hhead),
    loadInventoryIds_eq_ok.mpr (hkeeps.hasSet hset), ?_⟩
  rcases @transitionInventory_cases blake3 store projectId call.operation call.snapshotId
    call.expectedHeadId call.operationId with ⟨error, hrun⟩ |
      ⟨expected, error, mutation, -, -, hrun⟩ | ⟨⟨transition⟩⟩
  · rw [TransitionCall.invoke, hrun] at hafter
    cases hafter
  · rw [TransitionCall.invoke, hrun] at hafter
    exact Or.inl ((mutation.inventoryHead_trace after hafter).trans hhead)
  · rcases CallTransition.head_trace transition hsafe hhashes hhead after hafter with
      hold | ⟨rfl, rfl, hnew⟩
    · exact Or.inl hold
    · obtain ⟨changed, happly, hfound⟩ :=
        CallTransition.changed transition hsafe hhashes hset
      exact Or.inr ⟨_, changed, hnew, happly, loadInventoryIds_eq_ok.mpr
        ((hfound changed).mpr ⟨rfl, fits_of_not_overfills transition hset happly hfits⟩)⟩

/-- The transition of a call, made again where its head is the old one or its own. -/
theorem retry_transition (transition : CallTransition blake3 store projectId call)
    (hid : inventoryOperationId blake3 call.operationId ≠ zeroDigest)
    (hkeeps : Keeps blake3 store after)
    (hhead : after.inventoryHead blake3 projectId = .ok ⟨transition.newId, transition.state⟩ ∨
      transition.expected.id ≠ transition.newId ∧
        after.inventoryHead blake3 projectId = .ok transition.expected) :
    ((call.invoke blake3 projectId).run after).2 = .ok transition.newId.toHex ∧
      ((call.invoke blake3 projectId).final after).inventoryHead blake3 projectId =
        .ok ⟨transition.newId, transition.state⟩ ∧
      (after.inventoryHead blake3 projectId = .ok ⟨transition.newId, transition.state⟩ →
        ∀ again ∈ ((call.invoke blake3 projectId).run after).1,
          again.inventoryHead blake3 projectId = .ok ⟨transition.newId, transition.state⟩) := by
  let again : CallTransition blake3 after projectId call := Transition.transfer transition hkeeps
  have htrace := again.mutation.inventoryHead_trace
  have hlast := again.mutation.last_trace after
  rw [Durable.final]
  rcases hhead with hhead | ⟨hne, hhead⟩
  · have houtcome := CallTransition.outcome again hid hhead
    rcases hrun : (call.invoke blake3 projectId).run after with ⟨trace, result⟩
    rw [hrun] at houtcome
    cases houtcome with
    | replay =>
        refine ⟨rfl, ?_, fun _ store hstore => (htrace store hstore).trans hhead⟩
        rw [hlast]
        exact again.mutation.inventoryHead_after.trans hhead
    | collision error _ hstate => exact absurd rfl hstate
    | stale error hnew => exact absurd rfl hnew
    | commit hnew => exact absurd rfl hnew
  · have houtcome := CallTransition.outcome again hid hhead
    rcases hrun : (call.invoke blake3 projectId).run after with ⟨trace, result⟩
    rw [hrun] at houtcome
    cases houtcome with
    | replay h => exact absurd (congrArg InventoryHead.id h) hne
    | collision error hnew => exact absurd hnew hne
    | stale error _ hexpected => exact absurd rfl hexpected
    | commit =>
        refine ⟨rfl, ?_, fun hnew => ?_⟩
        · rw [Durable.last_append]
          exact inventoryHead_committed (again.state_validShape hid) rfl
        · rw [hhead] at hnew
          exact absurd (congrArg InventoryHead.id (Except.ok.inj hnew)) hne

theorem retry_returns (hsafe : HashSafe blake3 used)
    (hhashes : Hashes blake3 used store projectId call)
    (hhead : store.inventoryHead blake3 projectId = .ok head) {newHeadId : String}
    (hresult : ((call.invoke blake3 projectId).run store).2 = .ok newHeadId) :
    ∃ new, new.id.toHex = newHeadId ∧ Records blake3 new call ∧
      (∀ other, operationDomain ++ utf8 other.operationId ∈ used → Records blake3 new other →
        other = call) ∧
      ∀ after ∈ store :: ((call.invoke blake3 projectId).run store).1,
        ((call.invoke blake3 projectId).run after).2 = .ok newHeadId ∧
          ((call.invoke blake3 projectId).final after).inventoryHead blake3 projectId = .ok new ∧
          (after.inventoryHead blake3 projectId = .ok new →
            ∀ again ∈ ((call.invoke blake3 projectId).run after).1,
              again.inventoryHead blake3 projectId = .ok new) := by
  have hid := CallTransition.id_ne_zero hsafe hhashes
  have hkeeps : ∀ after ∈ store :: ((call.invoke blake3 projectId).run store).1,
      Keeps blake3 store after :=
    List.forall_mem_cons.mpr ⟨.refl store, keeps_trace hsafe hhashes hhead⟩
  rcases @transitionInventory_cases blake3 store projectId call.operation call.snapshotId
    call.expectedHeadId call.operationId with ⟨error, hrun⟩ |
      ⟨expected, error, mutation, -, -, hrun⟩ | ⟨⟨transition⟩⟩
  · rw [TransitionCall.invoke, hrun] at hresult
    cases hresult
  · rw [TransitionCall.invoke, hrun] at hresult
    cases hresult
  · have hheads : ∀ after ∈ store :: ((call.invoke blake3 projectId).run store).1,
        after.inventoryHead blake3 projectId = .ok head ∨ head = transition.expected ∧
          after.inventoryHead blake3 projectId = .ok ⟨transition.newId, transition.state⟩ := by
      refine List.forall_mem_cons.mpr ⟨Or.inl hhead, fun after hafter => ?_⟩
      rcases CallTransition.head_trace transition hsafe hhashes hhead after hafter with
        hold | ⟨hexpected, -, hnew⟩
      · exact Or.inl hold
      · exact Or.inr ⟨hexpected, hnew⟩
    have houtcome := CallTransition.outcome transition hid hhead
    have hreturns : newHeadId = transition.newId.toHex ∧
        (head = ⟨transition.newId, transition.state⟩ ∨
          head.id ≠ transition.newId ∧ head = transition.expected) := by
      rcases hrun : (call.invoke blake3 projectId).run store with ⟨trace, result⟩
      rw [hrun] at houtcome hresult
      cases houtcome with
      | replay h => exact ⟨(Except.ok.inj hresult).symm, Or.inl h⟩
      | collision => cases hresult
      | stale => cases hresult
      | commit hne hexpected => exact ⟨(Except.ok.inj hresult).symm, Or.inr ⟨hne, hexpected⟩⟩
    obtain ⟨rfl, hcommit⟩ := hreturns
    refine ⟨⟨transition.newId, transition.state⟩, rfl, CallTransition.records transition,
      fun other hother hrecords => hrecords.unique hsafe (CallTransition.records transition)
        hother hhashes.operationId, fun after hafter => ?_⟩
    apply retry_transition transition hid (hkeeps after hafter)
    rcases hheads after hafter with hold | ⟨-, hnew⟩
    · rcases hcommit with rfl | ⟨hne, rfl⟩
      · exact Or.inl hold
      · exact Or.inr ⟨hne, hold⟩
    · exact Or.inl hnew

theorem stale_fails (hsafe : HashSafe blake3 used)
    (hhashes : Hashes blake3 used store projectId call)
    (hhead : store.inventoryHead blake3 projectId = .ok head)
    (hstale : call.expectedHeadId ≠ head.id.toHex) (hrecords : ¬ Records blake3 head call) :
    (∃ error, ((call.invoke blake3 projectId).run store).2 = .error error) ∧
      ∀ after ∈ ((call.invoke blake3 projectId).run store).1,
        after.inventoryHead blake3 projectId = .ok head := by
  rcases @transitionInventory_cases blake3 store projectId call.operation call.snapshotId
    call.expectedHeadId call.operationId with ⟨error, hrun⟩ |
      ⟨expected, error, mutation, -, -, hrun⟩ | ⟨⟨transition⟩⟩
  · rw [TransitionCall.invoke, hrun]
    exact ⟨⟨error, rfl⟩, fun _ hafter => nomatch hafter⟩
  · rw [TransitionCall.invoke, hrun]
    exact ⟨⟨error, rfl⟩, fun after hafter =>
      (mutation.inventoryHead_trace after hafter).trans hhead⟩
  · have hmutation : ∀ after ∈ transition.mutation.trace,
        after.inventoryHead blake3 projectId = .ok head := fun after hafter =>
      (transition.mutation.inventoryHead_trace after hafter).trans hhead
    have houtcome := CallTransition.outcome transition (CallTransition.id_ne_zero hsafe hhashes)
      hhead
    rcases hrun : (call.invoke blake3 projectId).run store with ⟨trace, result⟩
    rw [hrun] at houtcome
    cases houtcome with
    | replay h => exact absurd (h ▸ CallTransition.records transition) hrecords
    | collision error => exact ⟨⟨error, rfl⟩, hmutation⟩
    | stale error => exact ⟨⟨error, rfl⟩, hmutation⟩
    | commit _ hexpected =>
        rw [hexpected] at hstale
        exact absurd (toHex_of_parse transition.parsed).symm hstale

/-! The converse: an Add to a full leaf commits a set that cannot be read. -/

/-- A set that can be read has fewer than 2^32 ids. -/
theorem HasSet.card_lt {state : InventoryState} (h : HasSet blake3 store projectId state ids) :
    ids.card < 2 ^ 32 := by
  rw [← sum_length_shard Digest32.firstByte ids]
  have hle : ∑ idPrefix, (shard Digest32.firstByte ids idPrefix).length ≤
      ∑ _idPrefix : UInt8, maxLeafIds := Finset.sum_le_sum fun idPrefix _ => h.leaf_le idPrefix
  have hcard : (Finset.univ : Finset UInt8).card = 256 := by decide +kernel
  rw [Finset.sum_const, smul_eq_mul, hcard] at hle
  exact hle.trans_lt (by decide)

theorem card_apply_le {operation : InventoryOperation} {snapshotId : SnapshotId}
    {changed : Finset SnapshotId} (h : operation.apply ids snapshotId = some changed) :
    changed.card ≤ ids.card + 1 := by
  rcases operation with _ | _ | _
  · cases h
  · rw [InventoryOperation.apply] at h
    split_ifs at h
    cases h
    exact Finset.card_insert_le _ _
  · rw [InventoryOperation.apply] at h
    split_ifs at h
    cases h
    exact (Finset.card_le_card (Finset.erase_subset _ _)).trans (Nat.le_succ _)

/-- A call on the current head whose operation applies makes a transition. -/
theorem exists_transition (hhead : store.inventoryHead blake3 projectId = .ok head)
    (hset : HasSet blake3 store projectId head.state ids) (hnamed : call.operationId ≠ "")
    (hcurrent : call.expectedHeadId = head.id.toHex) {changed : Finset SnapshotId}
    (happly : call.operation.apply ids call.snapshotId = some changed)
    (hgeneration : head.state.generation.toNat + 1 < 2 ^ 64)
    (hlimit : (shard Digest32.firstByte changed call.snapshotId.firstByte).length < 2 ^ 32) :
    ∃ transition : CallTransition blake3 store projectId call, transition.expected = head := by
  have hroot := hset
  obtain ⟨root, hroot, -⟩ := hroot
  have hcount : (UInt64.ofNat changed.card).toNat = changed.card :=
    UInt64.toNat_ofNat_of_lt' (by
      have hlt := hset.card_lt
      have hle := card_apply_le happly
      change _ < 2 ^ 64
      omega)
  have hadd : checkedAdd head.state.generation 1 =
      some (UInt64.ofNat (head.state.generation.toNat + 1)) :=
    checkedAdd_one_eq_some.mpr (UInt64.toNat_ofNat_of_lt' hgeneration).symm
  obtain ⟨mutation, -⟩ := exists_mutation
    (hset.mutatedSet_eq_ok.mpr ⟨hroot, _, happly, hcount, rfl⟩) hlimit
  exact ⟨⟨head, hnamed, hcurrent ▸ parseLowerHexId_toHex "object" head.id,
    loadState_of_inventoryHead hhead, mutation, _, hadd⟩, rfl⟩

/-- The call of an Add to a full leaf makes a transition. -/
theorem Overfills.transition (h : Overfills head ids call)
    (hhead : store.inventoryHead blake3 projectId = .ok head)
    (hset : HasSet blake3 store projectId head.state ids) :
    ∃ transition : CallTransition blake3 store projectId call, transition.expected = head := by
  have happly : call.operation.apply ids call.snapshotId = some (insert call.snapshotId ids) := by
    rw [h.operation, InventoryOperation.apply, if_neg h.missing]
  apply exists_transition hhead hset h.named h.current happly h.generation
  rw [length_shard_insert Digest32.firstByte h.missing, h.full]
  decide

theorem Overfills.not_atomic (h : Overfills head ids call) (hsafe : HashSafe blake3 used)
    (hhashes : Hashes blake3 used store projectId call)
    (hhead : store.inventoryHead blake3 projectId = .ok head)
    (hset : HasSet blake3 store projectId head.state ids) :
    ¬ Atomic blake3 used store projectId head ids call := by
  intro hatomic
  obtain ⟨transition, rfl⟩ := h.transition hhead hset
  have hload := loadState_eq_ok.mp (loadState_of_inventoryHead hhead)
  have hne : transition.expected.id ≠ transition.newId := by
    intro heq
    have hcontent := hsafe.injective _ (hhashes.before.states _ _ hload.2.1) _
      (hhashes.state transition) (hload.2.2.1.trans heq)
    have hstate : transition.expected.state = transition.state := by
      have hshape := CallTransition.id_ne_zero hsafe hhashes
      have hdecode := decodeState_encodeState hload.2.2.2.1
      rw [List.append_cancel_left hcontent,
        decodeState_encodeState (transition.state_validShape hshape)] at hdecode
      exact (Except.ok.inj hdecode).symm
    have hgeneration := checkedAdd_one_eq_some.mp transition.generation_eq
    have hsame : transition.expected.state.generation = transition.generation :=
      congrArg InventoryState.generation hstate
    rw [hsame] at hgeneration
    omega
  have houtcome := CallTransition.outcome transition (CallTransition.id_ne_zero hsafe hhashes)
    hhead
  have hcommits := CallTransition.commits transition hsafe hhashes
  have hcrash := hatomic.crash
  obtain ⟨changed, happly, hfound⟩ := CallTransition.changed transition hsafe hhashes hset
  rcases hrun : (call.invoke blake3 projectId).run store with ⟨trace, result⟩
  rw [hrun] at houtcome hcrash
  cases houtcome with
  | replay heq => exact hne (congrArg InventoryHead.id heq)
  | collision _ heq => exact hne heq
  | stale _ _ hexpected => exact hexpected rfl
  | commit =>
      have hends := hcommits hhead hne (by rw [hrun])
      obtain ⟨-, -, hnew⟩ := hcrash _ (List.mem_append_right _ (List.mem_cons_of_mem _
        (List.mem_singleton_self _)))
      rw [hends.newHead] at hnew
      rcases hnew with heq | ⟨new, found, hnewHead, -, hread⟩
      · exact hne (congrArg InventoryHead.id (Except.ok.inj heq)).symm
      · cases hnewHead
        have hlimit := ((hfound found).mp (loadInventoryIds_eq_ok.mp hread)).2
        rw [h.operation, InventoryOperation.apply, if_neg h.missing] at happly
        cases happly
        rw [length_shard_insert Digest32.firstByte h.missing, h.full] at hlimit
        exact absurd hlimit (Nat.not_succ_le_self _)

end Hash

end CheckPo
