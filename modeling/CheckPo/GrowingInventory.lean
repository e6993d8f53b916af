/-
A run of the inventory that adds ids of one first byte, one after the other, until
their leaf is longer than what can be read back.
-/
import CheckPo.InventoryLineage

namespace CheckPo

section Hash

variable {blake3 : Bytes → Digest32} {used : Set Bytes} {store : InventoryStore}
variable {projectId : ProjectId} {call : TransitionCall}

theorem forall_update {files : ObjectId → Option Bytes} {domain bytes : Bytes} {id : ObjectId}
    (hbytes : domain ++ bytes ∈ used)
    (h : ∀ id stored, files id = some stored → domain ++ stored ∈ used) :
    ∀ other stored, Function.update files id (some bytes) other = some stored →
      domain ++ stored ∈ used := by
  intro other stored hstored
  by_cases heq : other = id
  · rw [heq, Function.update_self] at hstored
    rw [← Option.some.inj hstored]
    exact hbytes
  · rw [Function.update_of_ne heq] at hstored
    exact h other stored hstored

namespace Within

theorem withSetLeaf {bytes : Bytes} (h : Within used store)
    (hbytes : setLeafDomain ++ bytes ∈ used) : Within used (store.withSetLeaf blake3 bytes) where
  states := h.states
  setRoots := h.setRoots
  setLeaves := forall_update hbytes h.setLeaves

theorem withSetRoot {bytes : Bytes} (h : Within used store)
    (hbytes : setRootDomain ++ bytes ∈ used) : Within used (store.withSetRoot blake3 bytes) where
  states := h.states
  setRoots := forall_update hbytes h.setRoots
  setLeaves := h.setLeaves

theorem withNewState {state : InventoryState} (h : Within used store)
    (hstate : stateDomain ++ encodeState state ∈ used) :
    Within used (store.withNewState blake3 state) where
  states := forall_update hstate h.states
  setRoots := h.setRoots
  setLeaves := h.setLeaves

theorem withNewHead {state : InventoryState} (h : Within used store)
    (hstate : stateDomain ++ encodeState state ∈ used) :
    Within used (store.withNewHead blake3 state) where
  states := (h.withNewState hstate).states
  setRoots := h.setRoots
  setLeaves := h.setLeaves

end Within

namespace CallTransition

variable (transition : CallTransition blake3 store projectId call)

/-- A transition of the current head to a state that is not the head commits. -/
theorem run_commit (hid : inventoryOperationId blake3 call.operationId ≠ zeroDigest)
    (hhead : store.inventoryHead blake3 projectId = .ok transition.expected)
    (hne : transition.expected.id ≠ transition.newId) :
    (call.invoke blake3 projectId).run store =
      (transition.mutation.trace ++
        [transition.mutation.after.withNewState blake3 transition.state,
          transition.mutation.after.withNewHead blake3 transition.state],
        .ok transition.newId.toHex) := by
  have houtcome := transition.outcome hid hhead
  rcases hrun : (call.invoke blake3 projectId).run store with ⟨trace, result⟩
  rw [hrun] at houtcome
  cases houtcome with
  | replay heq => exact absurd (congrArg InventoryHead.id heq) hne
  | collision _ heq => exact absurd heq hne
  | stale _ _ hstale => exact absurd rfl hstale
  | commit => rfl

/-- The contents of a mutation are those of its leaf and its set root. -/
theorem within_mutation (hwithin : Within used store)
    (hleaf : ∀ bytes, transition.mutation.leafBytes = some bytes → setLeafDomain ++ bytes ∈ used)
    (hroot : setRootDomain ++ transition.mutation.rootBytes ∈ used) :
    ∀ after ∈ transition.mutation.trace, Within used after := by
  have hwithLeaf : Within used transition.mutation.withLeaf := by
    rw [Mutation.withLeaf]
    rcases hbytes : transition.mutation.leafBytes with _ | bytes
    · exact hwithin
    · exact hwithin.withSetLeaf (hleaf bytes hbytes)
  intro after hafter
  rw [Mutation.trace, List.mem_append, List.mem_singleton] at hafter
  rcases hafter with hafter | rfl
  · rw [Mutation.withLeaf] at hwithLeaf
    rcases hbytes : transition.mutation.leafBytes with _ | bytes
    · rw [hbytes] at hafter
      cases hafter
    · rw [hbytes] at hafter hwithLeaf
      obtain rfl := List.mem_singleton.mp hafter
      exact hwithLeaf
  · exact hwithLeaf.withSetRoot hroot

/-- What a committed transition hashes. -/
theorem hashes_of_commit (hwithin : Within used store)
    (hmutation : ∀ after ∈ transition.mutation.trace, Within used after)
    (hoperation : operationDomain ++ utf8 call.operationId ∈ used)
    (hstate : ∀ transition : CallTransition blake3 store projectId call,
      stateDomain ++ encodeState transition.state ∈ used)
    (hrun : ((call.invoke blake3 projectId).run store).1 = transition.mutation.trace ++
      [transition.mutation.after.withNewState blake3 transition.state,
        transition.mutation.after.withNewHead blake3 transition.state]) :
    Hashes blake3 used store projectId call where
  before := hwithin
  operationId := hoperation
  state := hstate
  trace := by
    have hafter := hmutation _ transition.mutation.after_mem_trace
    rw [hrun]
    intro after hmem
    rcases List.mem_append.mp hmem with hmem | hmem
    · exact hmutation after hmem
    · rcases List.mem_cons.mp hmem with rfl | hmem
      · exact hafter.withNewState (hstate transition)
      · obtain rfl := List.mem_singleton.mp hmem
        exact hafter.withNewHead (hstate transition)

end CallTransition

end Hash

namespace Sample

/-- Seventeen bytes of a hashed content; the counts, the generations and the operations of
the inventory lie there. -/
def window (content : Bytes) : Bytes := (content.drop 64 ++ List.replicate 17 0).take 17

theorem length_window (content : Bytes) : (window content).length = 17 := by
  simp [window]

/-- A stand-in for BLAKE3 that tells apart the contents of a growing inventory: a byte of
the domain, a byte of the name of an operation, and the counts. -/
def windowHash (content : Bytes) : Digest32 :=
  ⟨byteAt content 31 :: byteAt content 40 :: (List.replicate 13 0 ++ window content), by
    simp [length_window]⟩

theorem window_slice {content : Bytes} {start stop : Nat} (h : 64 + stop ≤ content.length)
    (hstop : stop ≤ 17) :
    slice (window content) start stop = slice content (64 + start) (64 + stop) := by
  have hlength : stop ≤ (content.drop 64).length := by
    rw [List.length_drop]
    omega
  rw [slice, slice, window, List.take_take, min_eq_left hstop,
    List.take_append_of_le_length hlength, List.take_drop, List.drop_drop]

theorem window_byteAt {content : Bytes} {index : Nat} (h : 64 + index < content.length)
    (hindex : index < 17) : byteAt (window content) index = byteAt content (64 + index) := by
  have hlength : index < (content.drop 64).length := by
    rw [List.length_drop]
    omega
  rw [byteAt, byteAt, window, List.getD_eq_getElem?_getD, List.getD_eq_getElem?_getD,
    List.getElem?_take_of_lt hindex, List.getElem?_append_left hlength, List.getElem?_drop]

theorem windowHash_window {left right : Bytes} (h : windowHash left = windowHash right) :
    byteAt left 31 = byteAt right 31 ∧ byteAt left 40 = byteAt right 40 ∧
      window left = window right := by
  have hbytes := congrArg Digest32.bytes h
  obtain ⟨hdomain, hrest⟩ := List.cons.inj hbytes
  obtain ⟨hname, hwindow⟩ := List.cons.inj hrest
  exact ⟨hdomain, hname, List.append_cancel_left hwindow⟩

/-! Ids of one first byte. -/

def fullId (n : Nat) : SnapshotId :=
  ⟨255 :: (List.replicate 27 0 ++ toBigEndian 4 n), by simp⟩

theorem firstByte_fullId (n : Nat) : (fullId n).firstByte = 255 := rfl

theorem fullId_injective {left right : Nat} (hleft : left < 2 ^ 32) (hright : right < 2 ^ 32)
    (h : fullId left = fullId right) : left = right := by
  have hbytes := (List.cons.inj (congrArg Digest32.bytes h)).2
  have hnumber := congrArg ofBigEndian (List.append_cancel_left hbytes)
  rw [ofBigEndian_toBigEndian_of_lt hleft, ofBigEndian_toBigEndian_of_lt hright] at hnumber
  exact hnumber

def idsUpTo (n : Nat) : Finset SnapshotId := (Finset.range n).image fullId

theorem idsUpTo_succ (n : Nat) : idsUpTo (n + 1) = insert (fullId n) (idsUpTo n) := by
  rw [idsUpTo, Finset.range_add_one, Finset.image_insert, idsUpTo]

theorem fullId_notMem {n : Nat} (h : n < 2 ^ 32) : fullId n ∉ idsUpTo n := by
  intro hmem
  obtain ⟨other, hother, heq⟩ := Finset.mem_image.mp hmem
  have hlt := Finset.mem_range.mp hother
  exact hlt.ne (fullId_injective (hlt.trans h) h heq)

theorem card_idsUpTo {n : Nat} (h : n ≤ 2 ^ 32) : (idsUpTo n).card = n := by
  induction n with
  | zero => rfl
  | succ n ih =>
      rw [idsUpTo_succ, Finset.card_insert_of_notMem (fullId_notMem h), ih (Nat.le_of_succ_le h)]

theorem length_shard_idsUpTo {n : Nat} (h : n ≤ 2 ^ 32) :
    (shard Digest32.firstByte (idsUpTo n) 255).length = n := by
  induction n with
  | zero => rw [idsUpTo, Finset.range_zero, Finset.image_empty, shard_empty, List.length_nil]
  | succ n ih =>
      have hinsert := length_shard_insert Digest32.firstByte (fullId_notMem h)
      rw [firstByte_fullId, ih (Nat.le_of_succ_le h)] at hinsert
      rw [idsUpTo_succ, hinsert]

/-! The files of the inventory after a number of Adds. -/

def okBytes (result : CheckPoResult Bytes) : Bytes :=
  match result with
  | .ok bytes => bytes
  | .error _ => []

def leafAt (n : Nat) : SetLeaf :=
  ⟨firstProject, 255, shard Digest32.firstByte (idsUpTo n) 255⟩

def leafBytesAt (n : Nat) : Bytes := okBytes (encodeSetLeaf (leafAt n))

def rootAt : Nat → SetRoot
  | 0 => emptySetRoot firstProject
  | n + 1 => { rootAt n with
      count := UInt64.ofNat (n + 1)
      leaves := (rootAt n).leaves.set 255
        (leafSlot windowHash (leafAt (n + 1)) (some (leafBytesAt (n + 1)))) }

def rootBytesAt (n : Nat) : Bytes := okBytes (encodeSetRoot (rootAt n))

def stateAt : Nat → InventoryState
  | 0 => firstState firstProject (setRootId windowHash (rootBytesAt 0))
  | n + 1 => {
      projectId := firstProject
      generation := UInt64.ofNat (n + 1)
      count := UInt64.ofNat (n + 1)
      operation := .add
      parent := some (stateId windowHash (encodeState (stateAt n)))
      snapshotId := some (fullId n)
      operationId := inventoryOperationId windowHash "create"
      setRoot := setRootId windowHash (rootBytesAt (n + 1)) }

def stateIdAt (n : Nat) : ObjectId := stateId windowHash (encodeState (stateAt n))

/-- The call that adds the next id. -/
def callAt (n : Nat) : TransitionCall :=
  ⟨.add, fullId n, (stateIdAt n).toHex, "create"⟩

/-- The state once the last of `n + 1` ids is removed again. -/
def removedAt (n : Nat) : InventoryState where
  projectId := firstProject
  generation := UInt64.ofNat (n + 2)
  count := UInt64.ofNat n
  operation := .remove
  parent := some (stateIdAt (n + 1))
  snapshotId := some (fullId n)
  operationId := inventoryOperationId windowHash "delete"
  setRoot := setRootId windowHash (rootBytesAt n)

/-- The call that removes the last of `n + 1` ids. -/
def removalAt (n : Nat) : TransitionCall :=
  ⟨.remove, fullId n, (stateIdAt (n + 1)).toHex, "delete"⟩

inductive RunState : InventoryState → Prop
  | added {n : Nat} (h : n < 2 ^ 32) : RunState (stateAt n)
  | removed {n : Nat} (h : n + 2 < 2 ^ 32) : RunState (removedAt n)

/-- The contents that the run hashes. -/
inductive Used : Bytes → Prop
  | operation {name : String} (h : name = "create" ∨ name = "delete") :
      Used (operationDomain ++ utf8 name)
  | state {state : InventoryState} (h : RunState state) : Used (stateDomain ++ encodeState state)
  | setRoot {n : Nat} (h : n < 2 ^ 32) : Used (setRootDomain ++ rootBytesAt n)
  | setLeaf {n : Nat} (h : n < 2 ^ 32) (hpos : 0 < n) : Used (setLeafDomain ++ leafBytesAt n)

theorem projectId_rootAt (n : Nat) : (rootAt n).projectId = firstProject := by
  induction n with
  | zero => rfl
  | succ n ih => exact ih

theorem length_rootAt (n : Nat) : (rootAt n).leaves.length = 256 := by
  induction n with
  | zero => exact List.length_replicate
  | succ n ih => rw [rootAt, List.length_set, ih]

theorem count_rootAt (n : Nat) : (rootAt n).count = UInt64.ofNat n := by
  cases n <;> rfl

theorem slot_rootAt (n : Nat) : (rootAt (n + 1)).slot 255 =
    leafSlot windowHash (leafAt (n + 1)) (some (leafBytesAt (n + 1))) := by
  have hlength : 255 < (rootAt n).leaves.length := by
    rw [length_rootAt]
    decide
  change ((rootAt n).leaves.set 255 _).getD 255 none = _
  rw [List.getD_eq_getElem?_getD, List.getElem?_set_self hlength]
  rfl

theorem generation_stateAt (n : Nat) : (stateAt n).generation = UInt64.ofNat n := by
  cases n <;> rfl

theorem count_stateAt (n : Nat) : (stateAt n).count = UInt64.ofNat n := by
  cases n <;> rfl

theorem setRoot_stateAt (n : Nat) :
    (stateAt n).setRoot = setRootId windowHash (rootBytesAt n) := by
  cases n <;> rfl

theorem encode_rootAt (n : Nat) : encodeSetRoot (rootAt n) = .ok (rootBytesAt n) := by
  rw [rootBytesAt, encodeSetRoot_eq_ok.mpr ⟨length_rootAt n, rfl⟩, okBytes]

theorem encode_leafAt {n : Nat} (h : n < 2 ^ 32) (hpos : 0 < n) :
    encodeSetLeaf (leafAt n) = .ok (leafBytesAt n) := by
  have hids : (leafAt n).ids = shard Digest32.firstByte (idsUpTo n) 255 := rfl
  have hlength := length_shard_idsUpTo h.le
  have hvalid : (leafAt n).IdsValid := by
    refine ⟨fun hnil => ?_, ?_, fun id hid => ?_⟩
    · rw [← hids, hnil, List.length_nil] at hlength
      exact hpos.ne hlength
    · rw [hids]
      exact shard_increasing _ _
    · rw [hids, mem_shard] at hid
      exact hid.2
  have hlimit : (leafAt n).ids.length < 2 ^ 32 := by
    rw [hids, hlength]
    exact h
  rw [leafBytesAt, encodeSetLeaf_eq_ok.mpr ⟨hvalid, hlimit, rfl⟩, okBytes]

theorem length_domains : operationDomain.length = 40 ∧ stateDomain.length = 36 ∧
    setRootDomain.length = 39 ∧ setLeafDomain.length = 39 := by
  decide +kernel

theorem byteAt_domains : byteAt operationDomain 31 = 97 ∧ byteAt stateDomain 31 = 101 ∧
    byteAt setRootDomain 31 = 114 ∧ byteAt setLeafDomain 31 = 108 := by
  decide +kernel

theorem byteAt_domain {domain : Bytes} (h : 31 < domain.length) (bytes : Bytes) :
    byteAt (domain ++ bytes) 31 = byteAt domain 31 := by
  rw [byteAt, byteAt, List.getD_append _ _ _ _ h]

/-- Each domain has a byte of its own. -/
theorem byteAt_content (bytes : Bytes) : byteAt (operationDomain ++ bytes) 31 = 97 ∧
    byteAt (stateDomain ++ bytes) 31 = 101 ∧ byteAt (setRootDomain ++ bytes) 31 = 114 ∧
    byteAt (setLeafDomain ++ bytes) 31 = 108 := by
  obtain ⟨hoperation, hstate, hroot, hleaf⟩ := byteAt_domains
  obtain ⟨loperation, lstate, lroot, lleaf⟩ := length_domains
  rw [byteAt_domain (by omega), byteAt_domain (by omega), byteAt_domain (by omega),
    byteAt_domain (by omega)]
  exact ⟨hoperation, hstate, hroot, hleaf⟩

/-! The counts lie in the window of a content. -/

theorem window_state (state : InventoryState) :
    slice (window (stateDomain ++ encodeState state)) 0 8 = Writer.u64 state.generation ∧
      byteAt (window (stateDomain ++ encodeState state)) 16 = state.operation.toByte := by
  obtain ⟨-, hdomain, -⟩ := length_domains
  obtain ⟨-, -, -, hgeneration, -, hoperation, -⟩ := encodeState_fields state
  have hlength := length_encodeState state
  rw [stateBytes] at hlength
  constructor
  · rw [window_slice (by rw [List.length_append]; omega) (by omega), slice_skip (by omega),
      hdomain, hgeneration]
  · rw [window_byteAt (by rw [List.length_append]; omega) (by omega), byteAt,
      List.getD_append_right _ _ _ _ (by omega), hdomain]
    exact hoperation

theorem window_setRoot (n : Nat) :
    slice (window (setRootDomain ++ rootBytesAt n)) 3 11 = Writer.u64 (UInt64.ofNat n) := by
  obtain ⟨-, -, hdomain, -⟩ := length_domains
  have hlength := length_encodeSetRoot (encode_rootAt n)
  rw [rootBytes, rootHeaderBytes, rootSlotBytes] at hlength
  rw [window_slice (by rw [List.length_append]; omega) (by omega), slice_skip (by omega), hdomain,
    ← (encodeSetRoot_eq_ok.mp (encode_rootAt n)).2, projectId_rootAt, count_rootAt]
  have hmagic : rootMagic.length = 8 := rfl
  have hschema := length_writer_u32 inventorySchemaVersion
  have hproject := firstProject.property
  have hcount := length_writer_u64 (UInt64.ofNat n)
  simp (disch := omega) only [slice_skip, slice_first, hmagic, hschema, hproject, Nat.reduceAdd,
    Nat.reduceSub]

theorem window_setLeaf {n : Nat} (h : n < 2 ^ 32) (hpos : 0 < n) :
    slice (window (setLeafDomain ++ leafBytesAt n)) 4 8 = Writer.u32 (UInt32.ofNat n) := by
  obtain ⟨-, -, -, hdomain⟩ := length_domains
  have hencode := encode_leafAt h hpos
  have hlength := length_encodeSetLeaf hencode
  have hids : (leafAt n).ids.length = n := length_shard_idsUpTo h.le
  rw [leafHeaderBytes] at hlength
  rw [window_slice (by rw [List.length_append]; omega) (by omega), slice_skip (by omega), hdomain,
    ← (encodeSetLeaf_eq_ok.mp hencode).2.2, hids]
  have hmagic : leafMagic.length = 8 := rfl
  have hschema := length_writer_u32 inventorySchemaVersion
  have hproject := firstProject.property
  have hproject' : (leafAt n).projectId.val.length = 16 := hproject
  have hbyte : [(leafAt n).idPrefix].length = 1 := rfl
  have hcount := length_writer_u32 (UInt32.ofNat n)
  simp (disch := omega) only [slice_skip, slice_first, hmagic, hschema, hproject', hbyte,
    Nat.reduceAdd, Nat.reduceSub]

theorem ofNat_u64_injective {left right : Nat} (hleft : left < 2 ^ 32) (hright : right < 2 ^ 32)
    (h : Writer.u64 (UInt64.ofNat left) = Writer.u64 (UInt64.ofNat right)) : left = right := by
  have hvalue := congrArg u64FromBe h
  rw [u64FromBe_writer, u64FromBe_writer, ← UInt64.toNat_inj,
    UInt64.toNat_ofNat_of_lt' (hleft.trans (by decide)),
    UInt64.toNat_ofNat_of_lt' (hright.trans (by decide))] at hvalue
  exact hvalue

theorem operation_stateAt_ne (n : Nat) :
    (stateAt n).operation.toByte ≠ InventoryOperation.remove.toByte := by
  have hfirst : InventoryOperation.initialization.toByte ≠ InventoryOperation.remove.toByte := by
    decide
  have hadd : InventoryOperation.add.toByte ≠ InventoryOperation.remove.toByte := by decide
  cases n with
  | zero => exact hfirst
  | succ n => exact hadd

/-- The generation and the operation tell the states of the run apart. -/
theorem RunState.eq_of_window {left right : InventoryState} (hleft : RunState left)
    (hright : RunState right) (hgeneration : Writer.u64 left.generation =
      Writer.u64 right.generation) (hoperation : left.operation.toByte = right.operation.toByte) :
    left = right := by
  cases hleft with
  | added hn =>
      cases hright with
      | added hm =>
          rw [generation_stateAt, generation_stateAt] at hgeneration
          rw [ofNat_u64_injective hn hm hgeneration]
      | removed => exact absurd hoperation (operation_stateAt_ne _)
  | removed hn =>
      cases hright with
      | added => exact absurd hoperation.symm (operation_stateAt_ne _)
      | removed hm =>
          have hcounts := ofNat_u64_injective hn hm hgeneration
          rw [Nat.add_right_cancel hcounts]

/-- The first letter of the name of an operation. -/
theorem byteAt_names : byteAt (operationDomain ++ utf8 "create") 40 = 99 ∧
    byteAt (operationDomain ++ utf8 "delete") 40 = 100 := by
  decide +kernel

theorem eq_of_byteAt_name {left right : String} (hleft : left = "create" ∨ left = "delete")
    (hright : right = "create" ∨ right = "delete")
    (h : byteAt (operationDomain ++ utf8 left) 40 = byteAt (operationDomain ++ utf8 right) 40) :
    left = right := by
  obtain ⟨hcreate, hdelete⟩ := byteAt_names
  rcases hleft with rfl | rfl
  · rcases hright with rfl | rfl
    · rfl
    · rw [hcreate, hdelete] at h
      exact absurd h (by decide)
  · rcases hright with rfl | rfl
    · rw [hcreate, hdelete] at h
      exact absurd h (by decide)
    · rfl

/-- Nothing that the run hashes collides. -/
theorem hashSafe : HashSafe windowHash Used where
  injective := by
    intro left hleft right hright h
    obtain ⟨hbyte, hname, hwindow⟩ := windowHash_window h
    cases hleft with
    | operation hleft =>
        cases hright with
        | operation hright => rw [eq_of_byteAt_name hleft hright hname]
        | state => simp [byteAt_content] at hbyte
        | setRoot => simp [byteAt_content] at hbyte
        | setLeaf => simp [byteAt_content] at hbyte
    | state hleft =>
        cases hright with
        | operation => simp [byteAt_content] at hbyte
        | state hright =>
            have hgeneration := congrArg (fun bytes => slice bytes 0 8) hwindow
            have hoperation := congrArg (fun bytes => byteAt bytes 16) hwindow
            simp only [window_state] at hgeneration hoperation
            rw [hleft.eq_of_window hright hgeneration hoperation]
        | setRoot => simp [byteAt_content] at hbyte
        | setLeaf => simp [byteAt_content] at hbyte
    | setRoot hn =>
        cases hright with
        | operation => simp [byteAt_content] at hbyte
        | state => simp [byteAt_content] at hbyte
        | setRoot hm =>
            have hcount := congrArg (fun bytes => slice bytes 3 11) hwindow
            simp only [window_setRoot] at hcount
            rw [ofNat_u64_injective hn hm hcount]
        | setLeaf => simp [byteAt_content] at hbyte
    | setLeaf hn hpos =>
        cases hright with
        | operation => simp [byteAt_content] at hbyte
        | state => simp [byteAt_content] at hbyte
        | setRoot => simp [byteAt_content] at hbyte
        | setLeaf hm hmpos =>
            have hcount := congrArg (fun bytes => u32FromBe (slice bytes 4 8)) hwindow
            simp only [window_setLeaf hn hpos, window_setLeaf hm hmpos, u32FromBe_writer] at hcount
            rw [← UInt32.toNat_inj, UInt32.toNat_ofNat_of_lt' hn, UInt32.toNat_ofNat_of_lt' hm]
              at hcount
            rw [hcount]
  nonzero := by
    intro content hcontent h
    have hbyte : byteAt content 31 = 0 := congrArg Digest32.firstByte h
    cases hcontent with
    | operation => simp [byteAt_content] at hbyte
    | state => simp [byteAt_content] at hbyte
    | setRoot => simp [byteAt_content] at hbyte
    | setLeaf => simp [byteAt_content] at hbyte

/-! One Add after the other. -/

/-- The inventory after a number of Adds; its set can be read up to the limit of a leaf. -/
structure FilledTo (n : Nat) (store : InventoryStore) : Prop where
  within : Within Used store
  head : store.inventoryHead windowHash firstProject = .ok ⟨stateIdAt n, stateAt n⟩
  root : store.loadStateRoot windowHash firstProject (stateAt n) = .ok (rootAt n)
  set : ∀ found, HasSet windowHash store firstProject (stateAt n) found ↔
    found = idsUpTo n ∧ n ≤ maxLeafIds

theorem toNat_ofNat {n : Nat} (h : n < 2 ^ 32) : (UInt64.ofNat n).toNat = n :=
  UInt64.toNat_ofNat_of_lt' (h.trans (by decide))

theorem apply_add {n : Nat} (h : n < 2 ^ 32) :
    InventoryOperation.add.apply (idsUpTo n) (fullId n) = some (idsUpTo (n + 1)) := by
  rw [InventoryOperation.apply, if_neg (fullId_notMem h), idsUpTo_succ]

theorem apply_remove {n : Nat} (h : n < 2 ^ 32) :
    InventoryOperation.remove.apply (idsUpTo (n + 1)) (fullId n) = some (idsUpTo n) := by
  rw [InventoryOperation.apply, idsUpTo_succ, if_pos (Finset.mem_insert_self _ _),
    Finset.erase_insert (fullId_notMem h)]

variable {store : InventoryStore} {n left : Nat} {call : TransitionCall}

/-- The state that a call on the state of `n` ids makes when it leaves `left` of them. -/
def stateOf (n left : Nat) (call : TransitionCall) : InventoryState where
  projectId := firstProject
  generation := UInt64.ofNat (n + 1)
  count := UInt64.ofNat left
  operation := call.operation
  parent := some (stateIdAt n)
  snapshotId := some call.snapshotId
  operationId := inventoryOperationId windowHash call.operationId
  setRoot := setRootId windowHash (rootBytesAt left)

/-- A call on the state of `n` ids that leaves `left` ids, at least one. -/
structure Leaves (n left : Nat) (call : TransitionCall) : Prop where
  current : call.expectedHeadId = (stateIdAt n).toHex
  named : call.operationId = "create" ∨ call.operationId = "delete"
  firstByte : call.snapshotId.firstByte = 255
  applies : call.operation.apply (idsUpTo n) call.snapshotId = some (idsUpTo left)
  root : { rootAt n with
    count := UInt64.ofNat left
    leaves := (rootAt n).leaves.set 255
      (leafSlot windowHash (leafAt left) (some (leafBytesAt left))) } = rootAt left
  state : RunState (stateOf n left call)
  pos : 0 < left
  limit : left < 2 ^ 32

theorem leaves_callAt (h : n + 1 < 2 ^ 32) : Leaves n (n + 1) (callAt n) where
  current := rfl
  named := Or.inl rfl
  firstByte := rfl
  applies := apply_add (Nat.lt_of_succ_lt h)
  root := rfl
  state := .added h
  pos := Nat.succ_pos n
  limit := h

/-- Without its last id the set root is the one before. -/
theorem leaves_removalAt (h : n + 2 < 2 ^ 32) (hpos : 0 < n) :
    Leaves (n + 1) n (removalAt n) where
  current := rfl
  named := Or.inr rfl
  firstByte := rfl
  applies := apply_remove (Nat.lt_of_succ_lt (Nat.lt_of_succ_lt h))
  root := by
    cases n with
    | zero => exact absurd hpos (Nat.lt_irrefl 0)
    | succ n => simp only [rootAt, List.set_set]
  state := .removed h
  pos := hpos
  limit := Nat.lt_of_succ_lt (Nat.lt_of_succ_lt h)

/-- What the transition of a call stores. -/
theorem FilledTo.transition_eq (h : FilledTo n store) (hn : n ≤ maxLeafIds)
    (hcall : Leaves n left call)
    (transition : CallTransition windowHash store firstProject call) :
    transition.expected = ⟨stateIdAt n, stateAt n⟩ ∧
      transition.mutation.leafBytes = some (leafBytesAt left) ∧
      transition.mutation.newRoot = rootAt left ∧
      transition.mutation.rootBytes = rootBytesAt left ∧
      transition.state = stateOf n left call := by
  have hlimit : n + 1 < 2 ^ 32 := Nat.lt_of_le_of_lt (Nat.succ_le_succ hn) (by decide)
  have hset := (h.set _).mpr ⟨rfl, hn⟩
  obtain ⟨expected, hnamed, hparsed, hloaded, mutation, generation, hgeneration⟩ := transition
  have hid : expected.id = stateIdAt n :=
    toHex_injective ((toHex_of_parse hparsed).trans hcall.current)
  obtain rfl : expected = ⟨stateIdAt n, stateAt n⟩ := by
    have hload := loadState_of_inventoryHead h.head
    rw [hid] at hloaded
    exact Except.ok.inj (hloaded.symm.trans hload)
  obtain ⟨root, leaf, count, leafBytes, rootBytes, hmutated, hleafStored, hrootStored⟩ := mutation
  obtain ⟨hroot, changed, happly, hcount, rfl⟩ := hset.mutatedSet_eq_ok.mp hmutated
  obtain rfl := Except.ok.inj (h.root.symm.trans hroot)
  obtain rfl := Option.some.inj (hcall.applies.symm.trans happly)
  have hcount' : count = UInt64.ofNat left := by
    rw [← UInt64.toNat_inj, toNat_ofNat hcall.limit, hcount, card_idsUpTo hcall.limit.le]
  have hgeneration' : generation = UInt64.ofNat (n + 1) := by
    rw [← UInt64.toNat_inj, toNat_ofNat hlimit, ← checkedAdd_one_eq_some.mp hgeneration,
      generation_stateAt, toNat_ofNat (Nat.lt_of_succ_lt hlimit)]
  simp only [hcall.firstByte] at hleafStored hrootStored
  have hleaf : leafBytes = some (leafBytesAt left) := by
    have hencode := encode_leafAt hcall.limit hcall.pos
    cases leafBytes with
    | none =>
        have hnil : (leafAt left).ids = [] := hleafStored
        exact absurd hnil (encodeSetLeaf_eq_ok.mp hencode).1.nonempty
    | some bytes => exact congrArg some (Except.ok.inj (Eq.trans (Eq.symm hleafStored) hencode))
  subst hcount' hgeneration' hleaf
  have hnewRoot : ({ rootAt n with
      count := UInt64.ofNat left
      leaves := (rootAt n).leaves.set 255 (leafSlot windowHash (leafAt left)
        (some (leafBytesAt left))) } : SetRoot) = rootAt left := hcall.root
  have hnew : rootBytes = rootBytesAt left := by
    have hencode : encodeSetRoot (rootAt left) = .ok rootBytes := by
      rw [← hnewRoot]
      exact hrootStored
    exact Except.ok.inj (hencode.symm.trans (encode_rootAt left))
  subst hnew
  refine ⟨rfl, rfl, ?_, rfl, rfl⟩
  rw [← hnewRoot, Mutation.newRoot]
  simp only [hcall.firstByte]
  rfl

/-- A state of the run has another id than the states it follows. -/
theorem stateIdAt_ne_stateOf (hn : n + 1 < 2 ^ 32) : stateIdAt n ≠
    stateId windowHash (encodeState (stateOf n left call)) := by
  intro heq
  have hgeneration := congrArg (fun bytes => slice bytes 0 8) (windowHash_window heq).2.2
  simp only [window_state, generation_stateAt] at hgeneration
  exact (Nat.succ_ne_self n).symm (ofNat_u64_injective (Nat.lt_of_succ_lt hn) hn hgeneration)

/-- The calls of the run return. -/
theorem FilledTo.commit (h : FilledTo n store) (hn : n ≤ maxLeafIds)
    (hcall : Leaves n left call) : Hashes windowHash Used store firstProject call ∧
      ∃ transition : CallTransition windowHash store firstProject call,
        (∀ after ∈ transition.mutation.trace, Within Used after) ∧
        transition.expected.id ≠ transition.newId ∧
        (call.invoke windowHash firstProject).run store =
          (transition.mutation.trace ++
            [transition.mutation.after.withNewState windowHash transition.state,
              transition.mutation.after.withNewHead windowHash transition.state],
            .ok transition.newId.toHex) := by
  have hlimit : n + 1 < 2 ^ 32 := Nat.lt_of_le_of_lt (Nat.succ_le_succ hn) (by decide)
  have hset := (h.set _).mpr ⟨rfl, hn⟩
  have hoperation : Used (operationDomain ++ utf8 call.operationId) := .operation hcall.named
  have hgeneration : (stateAt n).generation.toNat + 1 < 2 ^ 64 := by
    rw [generation_stateAt, toNat_ofNat (Nat.lt_of_succ_lt hlimit)]
    exact hlimit.trans (by decide)
  have hshard : (shard Digest32.firstByte (idsUpTo left) call.snapshotId.firstByte).length <
      2 ^ 32 := by
    rw [hcall.firstByte, length_shard_idsUpTo hcall.limit.le]
    exact hcall.limit
  have hnamed : call.operationId ≠ "" := by
    rcases hcall.named with heq | heq
    · rw [heq]
      decide
    · rw [heq]
      decide
  obtain ⟨transition, -⟩ := exists_transition h.head hset hnamed hcall.current hcall.applies
    hgeneration hshard
  obtain ⟨hexpected, hleaf, -, hrootBytes, hstate⟩ := h.transition_eq hn hcall transition
  have hne : transition.expected.id ≠ transition.newId := by
    rw [hexpected, Transition.newId, hstate]
    exact stateIdAt_ne_stateOf hlimit
  have hmutation : ∀ after ∈ transition.mutation.trace, Within Used after := by
    apply CallTransition.within_mutation transition h.within
    · rw [hleaf]
      rintro bytes ⟨⟩
      exact .setLeaf hcall.limit hcall.pos
    · rw [hrootBytes]
      exact .setRoot hcall.limit
  have hrun := CallTransition.run_commit transition (hashSafe.nonzero _ hoperation)
    (hexpected ▸ h.head) hne
  refine ⟨CallTransition.hashes_of_commit transition h.within hmutation hoperation
    (fun other => ?_) (congrArg Prod.fst hrun), transition, hmutation, hne, hrun⟩
  rw [(h.transition_eq hn hcall other).2.2.2.2]
  exact .state hcall.state

/-- The next call of the run returns, and adds the next id. -/
theorem FilledTo.step (h : FilledTo n store) (hn : n ≤ maxLeafIds) :
    Hashes windowHash Used store firstProject (callAt n) ∧
      (∃ id, (((callAt n).invoke windowHash firstProject).run store).2 = .ok id) ∧
      FilledTo (n + 1) (((callAt n).invoke windowHash firstProject).final store) := by
  have hlimit : n + 1 < 2 ^ 32 := Nat.lt_of_le_of_lt (Nat.succ_le_succ hn) (by decide)
  have hcall := leaves_callAt hlimit
  obtain ⟨hhashes, transition, hmutation, hne, hrun⟩ := h.commit hn hcall
  obtain ⟨hexpected, -, hnewRoot, hrootBytes, hstate⟩ := h.transition_eq hn hcall transition
  have hstate : transition.state = stateAt (n + 1) := hstate
  have hnewId : transition.newId = stateIdAt (n + 1) := by
    rw [Transition.newId, hstate, stateIdAt]
  have hfinal : ((callAt n).invoke windowHash firstProject).final store =
      transition.mutation.after.withNewHead windowHash transition.state := by
    rw [Durable.final, hrun, Durable.last_append]
    rfl
  have hends := CallTransition.commits transition hashSafe hhashes (hexpected ▸ h.head) hne
    (congrArg Prod.fst hrun)
  have hsetExpected : HasSet windowHash store firstProject transition.expected.state
      (idsUpTo n) := by
    rw [hexpected]
    exact (h.set _).mpr ⟨rfl, hn⟩
  obtain ⟨changed, happly, hfound⟩ :=
    CallTransition.changed transition hashSafe hhashes hsetExpected
  obtain rfl := Option.some.inj (hcall.applies.symm.trans happly)
  refine ⟨hhashes, ⟨_, by rw [hrun]⟩, ?_⟩
  rw [hfinal]
  refine ⟨?_, ?_, ?_, fun found => ?_⟩
  · apply (hmutation _ transition.mutation.after_mem_trace).withNewHead
    rw [hstate]
    exact .state (.added hlimit)
  · rw [hends.newHead, hnewId, hstate]
  · have hroot := transition.mutation.newRoot_loaded hashSafe hmutation
    rw [hnewRoot, hrootBytes] at hroot
    refine loadStateRoot_eq_ok.mpr ⟨?_, ?_⟩
    · rw [setRoot_stateAt]
      exact hroot
    · rw [count_rootAt, count_stateAt]
  · rw [← hstate, hfound found]
    rw [show (callAt n).snapshotId.firstByte = 255 from rfl, length_shard_idsUpTo hlimit.le]

/-- The last id can be removed again. -/
theorem FilledTo.remove (h : FilledTo (n + 1) store) (hn : n + 1 ≤ maxLeafIds) (hpos : 0 < n) :
    Hashes windowHash Used store firstProject (removalAt n) ∧
      ∃ id, (((removalAt n).invoke windowHash firstProject).run store).2 = .ok id := by
  have hlimit : n + 2 < 2 ^ 32 := Nat.lt_of_le_of_lt (Nat.succ_le_succ hn) (by decide)
  obtain ⟨hhashes, transition, -, -, hrun⟩ := h.commit hn (leaves_removalAt hlimit hpos)
  exact ⟨hhashes, _, congrArg Prod.snd hrun⟩

/-- A leaf of the run can be read only up to the limit. -/
theorem FilledTo.leaf_limit (h : FilledTo n store) (hn : n < 2 ^ 32) {reference : LeafRef}
    (hslot : (rootAt n).slot 255 = some reference) {leaf : SetLeaf}
    (hload : store.loadSlotLeaf windowHash firstProject reference 255 = .ok leaf) :
    n ≤ maxLeafIds := by
  cases n with
  | zero => exact Nat.zero_le _
  | succ n =>
      have hcount : reference.count = UInt32.ofNat (n + 1) := by
        rw [slot_rootAt] at hslot
        rw [← Option.some.inj hslot, leafAt, length_shard_idsUpTo hn.le]
      obtain ⟨hleaf, hlength⟩ := loadSlotLeaf_eq_ok.mp hload
      obtain ⟨bytes, hencode, -, hlimit, -⟩ := loadSetLeaf_eq_ok.mp hleaf
      rw [hcount, UInt32.toNat_ofNat_of_lt' hn] at hlength
      rw [← hlength]
      exact (leaf_readable_iff hencode).mp hlimit

theorem initialize_run :
    (initializeSnapshotInventory windowHash firstProject []).run noInventory =
      ([noInventory.withSetRoot windowHash (rootBytesAt 0),
        (noInventory.withSetRoot windowHash (rootBytesAt 0)).withNewState windowHash (stateAt 0),
        (noInventory.withSetRoot windowHash (rootBytesAt 0)).withNewHead windowHash (stateAt 0)],
        .ok ()) :=
  initializeSnapshotInventory_fresh rfl (encode_rootAt 0)

theorem filledTo_zero :
    FilledTo 0 ((initializeSnapshotInventory windowHash firstProject []).final noInventory) := by
  have hroot : Within Used (noInventory.withSetRoot windowHash (rootBytesAt 0)) :=
    Within.withSetRoot ⟨nofun, nofun, nofun⟩ (.setRoot (by decide))
  have hfinal : (initializeSnapshotInventory windowHash firstProject []).final noInventory =
      (noInventory.withSetRoot windowHash (rootBytesAt 0)).withNewHead windowHash (stateAt 0) := by
    rw [Durable.final, initialize_run]
    rfl
  obtain ⟨head, hlineage⟩ : ∃ head, Lineage windowHash
      ((initializeSnapshotInventory windowHash firstProject []).final noInventory) firstProject
      head [] := initialize_lineage rfl (congrArg Prod.snd initialize_run)
  rw [hfinal] at hlineage ⊢
  have hhead : ((noInventory.withSetRoot windowHash (rootBytesAt 0)).withNewHead windowHash
      (stateAt 0)).inventoryHead windowHash firstProject = .ok ⟨stateIdAt 0, stateAt 0⟩ :=
    inventoryHead_committed rfl rfl
  obtain rfl := Except.ok.inj (hhead.symm.trans hlineage.current)
  have hset : HasSet windowHash _ firstProject (stateAt 0) (idsUpTo 0) := hlineage.set
  have hstate : Used (stateDomain ++ encodeState (stateAt 0)) := .state (.added (by decide))
  refine ⟨hroot.withNewHead hstate, hhead, ?_, fun found => ?_⟩
  · exact loadStateRoot_firstState (encode_rootAt 0)
  · constructor
    · exact fun hfound => ⟨hfound.unique hset, Nat.zero_le _⟩
    · rintro ⟨rfl, -⟩
      exact hset

end Sample

end CheckPo
