/-
The projected removal of a snapshot: the new latest snapshot is the member that was
added last, by the parent of the removed one or by the walk over the lineage.
-/
import CheckPo.InventoryRuns

namespace CheckPo

/-- The id that a state adds. -/
def addedId (state : InventoryState) : Option SnapshotId :=
  if state.operation = .add then state.snapshotId else none

/-- The ids that the states of a lineage add, newest first. -/
def addedIds (states : List InventoryState) : List SnapshotId := states.filterMap addedId

/-- The member of a set that was added last. -/
def newestOf (states : List InventoryState) (ids : Finset SnapshotId) : Option SnapshotId :=
  (addedIds states).find? fun id => decide (id ∈ ids)

theorem newestOf_cons (state : InventoryState) (earlier : List InventoryState)
    (ids : Finset SnapshotId) : newestOf (state :: earlier) ids =
      ((addedId state).filter fun id => decide (id ∈ ids)).or (newestOf earlier ids) := by
  rw [newestOf, newestOf, addedIds, List.filterMap_cons]
  rcases addedId state with _ | id
  · rfl
  · rw [List.find?_cons, Option.filter_some]
    split
    · next h => rw [h, if_pos rfl, Option.some_or]
    · next h => rw [h, if_neg nofun, Option.none_or, addedIds]

section Hash

variable {blake3 : Bytes → Digest32} {used : Set Bytes} {store : InventoryStore}
variable {projectId : ProjectId} {head : InventoryHead} {states : List InventoryState}
variable {ids : Finset SnapshotId}

theorem foldStates_subset_addedIds {id : SnapshotId} (h : id ∈ foldStates states) :
    id ∈ addedIds states := by
  induction states with
  | nil => cases h
  | cons state earlier ih =>
      have hold : id ∈ addedIds earlier → id ∈ addedIds (state :: earlier) := by
        simp only [addedIds, List.mem_filterMap]
        rintro ⟨other, hother, hid⟩
        exact ⟨other, List.mem_cons_of_mem _ hother, hid⟩
      rcases hoperation : state.operation with _ | _ | _
      · rw [foldStates, hoperation] at h
        exact hold (ih h)
      · rcases hid : state.snapshotId with _ | added
        · simp only [foldStates, hoperation, hid] at h
          exact hold (ih h)
        · simp only [foldStates, hoperation, hid] at h
          rcases Finset.mem_insert.mp h with rfl | h
          · simp [addedIds, addedId, hoperation, hid]
          · exact hold (ih h)
      · rcases hid : state.snapshotId with _ | removed
        · simp only [foldStates, hoperation, hid] at h
          exact hold (ih h)
        · simp only [foldStates, hoperation, hid] at h
          exact hold (ih (Finset.mem_of_mem_erase h))

/-! The walk over the lineage. -/

theorem addedCandidate_eq_ok (hload : store.loadState blake3 head.id projectId = .ok head) :
    addedCandidate head.state = .ok (addedId head.state) := by
  obtain ⟨-, -, -, hshape, -⟩ := loadState_eq_ok.mp hload
  rw [addedCandidate, addedId]
  by_cases hadd : head.state.operation = .add
  · rw [if_pos hadd, if_pos hadd]
    rcases hid : head.state.snapshotId with _ | id
    · have hinitial := (validShape_snapshotId hshape).mp hid
      rw [hadd] at hinitial
      cases hinitial
    · rfl
  · rw [if_neg hadd, if_neg hadd]

/-- The walk finds the member that was added last. -/
theorem walkLineage_of_chain {remaining : Finset SnapshotId} {survivor : SnapshotId}
    (hchain : Chain blake3 store projectId head states) {visited : Finset ObjectId}
    (hvisited : ∀ seen : InventoryHead, store.loadState blake3 seen.id projectId = .ok seen →
      seen.id ∈ visited → head.state.generation.toNat < seen.state.generation.toNat)
    (h : newestOf states remaining = some survivor) :
    walkLineage blake3 store projectId remaining head visited = .ok survivor := by
  induction hchain generalizing visited with
  | first => cases h
  | @next head parent earlier hload hparent hgeneration hearlier ih =>
      have hnot : head.id ∉ visited := fun hmem =>
        lt_irrefl _ (hvisited head hload hmem)
      have hlt : parent.state.generation.toNat < head.state.generation.toNat := by
        rw [← checkedAdd_one_eq_some.mp hgeneration]
        exact Nat.lt_succ_self _
      have hparentLoad := hearlier.loaded
      have hnext : newestOf earlier remaining = some survivor →
          walkLineage blake3 store projectId remaining parent (insert head.id visited) =
            .ok survivor := by
        apply ih
        intro seen hseen hmem
        rcases Finset.mem_insert.mp hmem with heq | hmem
        · rw [heq, hload] at hseen
          rw [← Except.ok.inj hseen]
          exact hlt
        · exact hlt.trans (hvisited seen hseen hmem)
      rw [newestOf_cons] at h
      rw [walkLineage, if_neg hnot, addedCandidate_eq_ok hload]
      simp only
      rcases hadded : (addedId head.state).filter fun id => decide (id ∈ remaining) with _ | id
      · rw [hadded, Option.none_or] at h
        simp only [hparent, hparentLoad, dif_pos hgeneration]
        exact hnext h
      · rw [hadded, Option.some_or] at h
        exact congrArg Except.ok (Option.some.inj h)

/-! The projection. -/

theorem setRootContains_eq {state : InventoryState} {root : SetRoot}
    (hset : HasSet blake3 store projectId state ids)
    (hroot : store.loadStateRoot blake3 projectId state = .ok root) (id : SnapshotId) :
    store.setRootContains blake3 projectId root id = .ok (decide (id ∈ ids)) := by
  obtain ⟨_, hloaded, -, hslots⟩ := hset
  obtain rfl := Except.ok.inj (hroot.symm.trans hloaded)
  have hslot := hslots id.firstByte
  have hmem : id ∈ shard Digest32.firstByte ids id.firstByte ↔ id ∈ ids := by
    rw [mem_shard, and_iff_left rfl]
  rw [InventoryStore.setRootContains]
  rcases hreference : root.slot id.firstByte with _ | reference
  · rw [hreference] at hslot
    have hnil : shard Digest32.firstByte ids id.firstByte = [] := hslot
    rw [hnil] at hmem
    have hnot : id ∉ ids := fun h => List.not_mem_nil (hmem.mpr h)
    rw [decide_eq_false hnot]
  · rw [hreference, HoldsSlot] at hslot
    simp only [hslot, except_bind_ok]
    have hfound : (binarySearch (shard Digest32.firstByte ids id.firstByte) id).isOk =
        decide (id ∈ ids) := by
      rw [Bool.eq_iff_iff, binarySearch_isOk (shard_increasing _ _), hmem, decide_eq_true_iff]
    rw [hfound]
    rfl

theorem newestOf_mem {id : SnapshotId} (h : newestOf states ids = some id) : id ∈ ids := by
  have hfound := List.find?_some h
  exact of_decide_eq_true hfound

theorem newestOf_eq_none_iff {remaining : Finset SnapshotId}
    (h : remaining ⊆ foldStates states) : newestOf states remaining = none ↔ remaining = ∅ := by
  rw [newestOf, List.find?_eq_none]
  constructor
  · intro hnone
    apply Finset.eq_empty_of_forall_notMem
    intro id hid
    exact hnone id (foldStates_subset_addedIds (h hid)) (decide_eq_true hid)
  · rintro rfl
    simp

/-- The newest member stays the newest one when another member is removed. -/
theorem newestOf_erase_of_ne {removed : SnapshotId} (h : newestOf states ids ≠ some removed) :
    newestOf states (ids.erase removed) = newestOf states ids := by
  rcases hnewest : newestOf states ids with _ | newest
  · rw [newestOf, List.find?_eq_none] at hnewest ⊢
    intro id hid hmem
    exact hnewest id hid (decide_eq_true (Finset.mem_of_mem_erase (of_decide_eq_true hmem)))
  · have hne : newest ≠ removed := fun heq => h (hnewest.trans (congrArg some heq))
    rw [newestOf, List.find?_eq_some_iff_append] at hnewest ⊢
    obtain ⟨hmem, before, after, hsplit, hbefore⟩ := hnewest
    refine ⟨decide_eq_true (Finset.mem_erase.mpr ⟨hne, of_decide_eq_true hmem⟩), before, after,
      hsplit, fun id hid => ?_⟩
    have hnot := hbefore id hid
    simp only [Bool.not_eq_eq_eq_not, Bool.not_true, decide_eq_false_iff_not] at hnot ⊢
    exact fun hin => hnot (Finset.mem_of_mem_erase hin)

theorem survivingParent_eq {state : InventoryState} {root : SetRoot}
    (hset : HasSet blake3 store projectId state ids)
    (hroot : store.loadStateRoot blake3 projectId state = .ok root) (removed : SnapshotId)
    (preferred : Option SnapshotId) :
    survivingParent blake3 store projectId root removed preferred =
      .ok (preferred.filter fun parent => decide (parent ≠ removed ∧ parent ∈ ids)) := by
  rcases preferred with _ | parent
  · rfl
  · rw [survivingParent, Option.filter_some]
    by_cases heq : parent = removed
    · simp [heq]
    · simp only [setRootContains_eq hset hroot, except_bind_ok, ne_eq, heq,
        not_false_eq_true, true_and]
      rfl

/-- The projected removal of a member, when the latest snapshot is the member that was
added last and its parent, if it is a member, the one added before it. -/
theorem projectSnapshotRemoval_eq (h : Lineage blake3 store projectId head states)
    {removed : SnapshotId} {latest preferred : Option SnapshotId}
    (hremoved : removed ∈ foldStates states)
    (hlatest : latest = newestOf states (foldStates states))
    (hpreferred : latest = some removed → ∀ parent, preferred = some parent →
      parent ∈ foldStates states → parent ≠ removed →
        newestOf states ((foldStates states).erase removed) = some parent) :
    projectSnapshotRemoval blake3 store projectId removed latest preferred =
      .ok ((foldStates states).card - 1, if latest = some removed then
        newestOf states ((foldStates states).erase removed) else latest) := by
  have hcard : 0 < (foldStates states).card := Finset.card_pos.mpr ⟨removed, hremoved⟩
  have herase := Finset.card_erase_of_mem hremoved
  have hset := h.set
  obtain ⟨root, hroot, hrootCount, -⟩ := hset
  have hcount : head.state.count.toNat = (foldStates states).card := by
    rw [← (loadStateRoot_eq_ok.mp hroot).2, hrootCount]
  have hnonzero : head.state.count ≠ 0 := by
    intro hzero
    rw [hzero] at hcount
    exact hcard.ne hcount
  have hremaining : (UInt64.ofNat ((foldStates states).card - 1)).toNat =
      (foldStates states).card - 1 :=
    UInt64.toNat_ofNat_of_lt' (by
      have hlt := h.set.card_lt
      change _ < 2 ^ 64
      omega)
  have hsub : checkedSub head.state.count 1 =
      some (UInt64.ofNat ((foldStates states).card - 1)) := by
    rw [checkedSub_one_eq_some, hremaining, hcount]
    omega
  have hcontains := setRootContains_eq h.set hroot
  simp only [projectSnapshotRemoval, h.current, except_bind_ok, if_neg hnonzero, hroot, hcontains,
    hremoved, decide_true, Bool.true_eq_false, if_false, hsub, orError]
  by_cases hlast : latest = some removed
  · have hzero : UInt64.ofNat ((foldStates states).card - 1) = 0 ↔
        (foldStates states).erase removed = ∅ := by
      rw [← Finset.card_eq_zero, herase, ← UInt64.toNat_inj, hremaining]
      rfl
    simp only [hlast, ne_eq, not_true_eq_false, if_false, if_true, hzero, hremaining]
    by_cases hempty : (foldStates states).erase removed = ∅
    · rw [if_pos hempty, (newestOf_eq_none_iff (Finset.erase_subset _ _)).mpr hempty, ← herase,
        hempty]
      rfl
    · have hsome : newestOf states ((foldStates states).erase removed) ≠ none := fun hnone =>
        hempty ((newestOf_eq_none_iff (Finset.erase_subset _ _)).mp hnone)
      obtain ⟨survivor, hsurvivor⟩ := Option.ne_none_iff_exists'.mp hsome
      rw [if_neg hempty, survivingParent_eq h.set hroot, hsurvivor]
      simp only [except_bind_ok]
      rcases hparent : preferred.filter fun parent =>
        decide (parent ≠ removed ∧ parent ∈ foldStates states) with _ | parent
      · simp only [loadInventoryIds_eq_ok.mpr h.set, except_bind_ok,
          walkLineage_of_chain h.chain (fun _ _ hmem => absurd hmem (Finset.notMem_empty _))
            hsurvivor]
        rfl
      · obtain ⟨hpreferredParent, hcond⟩ := Option.filter_eq_some_iff.mp hparent
        obtain ⟨hne, hmem⟩ := of_decide_eq_true hcond
        have hnext := hpreferred hlast parent hpreferredParent hmem hne
        rw [hsurvivor] at hnext
        rw [hnext]
        rfl
  · rw [if_pos hlast, if_neg hlast]
    rcases hcase : latest with _ | current
    · rw [hremaining]
      rfl
    · have hmem : current ∈ foldStates states := by
        rw [hcase] at hlatest
        exact newestOf_mem hlatest.symm
      simp only [hmem, decide_true, Bool.true_eq_false, if_false, hremaining]
      rfl

/-- A projected removal has read the leaf of the removed id. -/
theorem projectSnapshotRemoval_leaf {removed : SnapshotId} {latest preferred : Option SnapshotId}
    {projection : Nat × Option SnapshotId} (hhead : store.inventoryHead blake3 projectId = .ok head)
    (h : projectSnapshotRemoval blake3 store projectId removed latest preferred = .ok projection) :
    ∃ root reference leaf, store.loadStateRoot blake3 projectId head.state = .ok root ∧
      root.slot removed.firstByte = some reference ∧
      store.loadSlotLeaf blake3 projectId reference removed.firstByte = .ok leaf := by
  simp only [projectSnapshotRemoval, hhead, except_bind_ok, except_guard_eq_ok,
    except_bind_eq_ok] at h
  obtain ⟨-, root, hroot, present, hcontains, hpresent, -⟩ := h
  rw [InventoryStore.setRootContains] at hcontains
  rcases hreference : root.slot removed.firstByte with _ | reference
  · rw [hreference] at hcontains
    exact absurd (Except.ok.inj hcontains).symm hpresent
  · rw [hreference] at hcontains
    obtain ⟨leaf, hleaf, -⟩ := except_bind_eq_ok.mp hcontains
    exact ⟨root, reference, leaf, hroot, hreference, hleaf⟩

end Hash

/-! Creating and deleting snapshots: the inventory with `refs/latest`, and the parents
that the snapshot roots record. -/

structure Timeline where
  inventory : InventoryStore
  latest : Option SnapshotId
  parents : SnapshotId → Option SnapshotId

namespace Timeline

variable (blake3 : Bytes → Digest32) (projectId : ProjectId)

/-- The transition of the current head. -/
def transition (timeline : Timeline) (operation : InventoryOperation) (snapshotId : SnapshotId)
    (operationId : String) : CheckPoResult TransitionCall := do
  let head ← timeline.inventory.inventoryHead blake3 projectId
  return ⟨operation, snapshotId, head.id.toHex, operationId⟩

/-- A created snapshot has the latest one as its parent, and becomes the latest one. -/
def create (timeline : Timeline) (snapshotId : SnapshotId) (operationId : String) :
    CheckPoResult Timeline := do
  let call ← timeline.transition blake3 projectId .add snapshotId operationId
  let _ ← ((call.invoke blake3 projectId).run timeline.inventory).2
  return {
    inventory := (call.invoke blake3 projectId).final timeline.inventory
    latest := some snapshotId
    parents := Function.update timeline.parents snapshotId timeline.latest }

/-- A deleted snapshot leaves the latest one as it is projected. -/
def delete (timeline : Timeline) (snapshotId : SnapshotId) (operationId : String) :
    CheckPoResult Timeline := do
  let (_, latest) ← projectSnapshotRemoval blake3 timeline.inventory projectId snapshotId
    timeline.latest (timeline.parents snapshotId)
  let call ← timeline.transition blake3 projectId .remove snapshotId operationId
  let _ ← ((call.invoke blake3 projectId).run timeline.inventory).2
  return {
    inventory := (call.invoke blake3 projectId).final timeline.inventory
    latest
    parents := timeline.parents }

end Timeline

/-- The timelines reached by creating and deleting snapshots, with the ids removed so far;
none of them is created again. -/
inductive TimelineReached (blake3 : Bytes → Digest32) (projectId : ProjectId)
    (may : TransitionCall → InventoryStore → Prop) (start : InventoryStore) :
    Timeline → Finset SnapshotId → Prop
  | start (parents : SnapshotId → Option SnapshotId) :
      TimelineReached blake3 projectId may start ⟨start, none, parents⟩ ∅
  | create {timeline after : Timeline} {removed : Finset SnapshotId} {snapshotId : SnapshotId}
      {operationId : String} {call : TransitionCall}
      (h : TimelineReached blake3 projectId may start timeline removed)
      (hfresh : snapshotId ∉ removed)
      (hcall : timeline.transition blake3 projectId .add snapshotId operationId = .ok call)
      (hmay : may call timeline.inventory)
      (hok : timeline.create blake3 projectId snapshotId operationId = .ok after) :
      TimelineReached blake3 projectId may start after removed
  | delete {timeline after : Timeline} {removed : Finset SnapshotId} {snapshotId : SnapshotId}
      {operationId : String} {call : TransitionCall}
      (h : TimelineReached blake3 projectId may start timeline removed)
      (hcall : timeline.transition blake3 projectId .remove snapshotId operationId = .ok call)
      (hmay : may call timeline.inventory)
      (hok : timeline.delete blake3 projectId snapshotId operationId = .ok after) :
      TimelineReached blake3 projectId may start after (insert snapshotId removed)

section Timeline

variable {blake3 : Bytes → Digest32} {used : Set Bytes} {projectId : ProjectId}
variable {timeline after : Timeline} {head : InventoryHead} {states : List InventoryState}
variable {removed : Finset SnapshotId}

/-- What holds of a timeline: no id is added twice, the latest snapshot is the member that
was added last, and a parent that is a member was added just before among the members. -/
structure TimelineSound (blake3 : Bytes → Digest32) (projectId : ProjectId) (timeline : Timeline)
    (removed : Finset SnapshotId) (head : InventoryHead) (states : List InventoryState) : Prop where
  lineage : Lineage blake3 timeline.inventory projectId head states
  nodup : (addedIds states).Nodup
  covered : ∀ id ∈ addedIds states, id ∈ foldStates states ∨ id ∈ removed
  latest : timeline.latest = newestOf states (foldStates states)
  parent_added : ∀ id ∈ foldStates states, ∀ parent, timeline.parents id = some parent →
    parent ∈ addedIds states
  adjacent : ∀ id ∈ foldStates states, ∀ parent ∈ foldStates states,
    timeline.parents id = some parent → ∃ before between rest,
      addedIds states = before ++ id :: (between ++ parent :: rest) ∧
        ∀ other ∈ between, other ∉ foldStates states

theorem find?_eq_none_of_notMem {values : List SnapshotId} {ids : Finset SnapshotId}
    (h : ∀ id ∈ values, id ∉ ids) : values.find? (fun id => decide (id ∈ ids)) = none := by
  rw [List.find?_eq_none]
  intro id hid hmem
  exact h id hid (of_decide_eq_true hmem)

/-- The member before the latest one is its parent. -/
theorem TimelineSound.newestOf_erase (h : TimelineSound blake3 projectId timeline removed head states)
    {id parent : SnapshotId} (hid : timeline.latest = some id)
    (hparent : timeline.parents id = some parent) (hmem : parent ∈ foldStates states)
    (hne : parent ≠ id) : newestOf states ((foldStates states).erase id) = some parent := by
  have hnewest : newestOf states (foldStates states) = some id := h.latest.symm.trans hid
  obtain ⟨before, between, rest, hadded, hbetween⟩ :=
    h.adjacent id (newestOf_mem hnewest) parent hmem hparent
  have hnodup := h.nodup
  rw [hadded] at hnodup
  have hbefore : ∀ other ∈ before, other ∉ foldStates states := by
    intro other hother hin
    rw [newestOf, hadded, List.find?_append] at hnewest
    rcases hfind : before.find? fun id => decide (id ∈ foldStates states) with _ | first
    · exact List.find?_eq_none.mp hfind other hother (decide_eq_true hin)
    · rw [hfind, Option.some_or] at hnewest
      obtain rfl := Option.some.inj hnewest
      exact (List.nodup_append.mp hnodup).2.2 first (List.mem_of_find?_eq_some hfind) first
        List.mem_cons_self rfl
  have herase : ∀ other, other ∉ foldStates states → other ∉ (foldStates states).erase id :=
    fun other hother hin => hother (Finset.mem_of_mem_erase hin)
  rw [newestOf, hadded, List.find?_append,
    find?_eq_none_of_notMem fun other hother => herase other (hbefore other hother),
    Option.none_or, List.find?_cons_of_neg (by simp), List.find?_append,
    find?_eq_none_of_notMem fun other hother => herase other (hbetween other hother),
    Option.none_or, List.find?_cons_of_pos]
  exact decide_eq_true (Finset.mem_erase.mpr ⟨hne, hmem⟩)

theorem TimelineSound.project (h : TimelineSound blake3 projectId timeline removed head states)
    {id : SnapshotId} (hid : id ∈ foldStates states) {preferred : Option SnapshotId}
    (hpreferred : preferred = timeline.parents id ∨ preferred = none) :
    projectSnapshotRemoval blake3 timeline.inventory projectId id timeline.latest preferred =
      .ok ((foldStates states).card - 1, if timeline.latest = some id then
        newestOf states ((foldStates states).erase id) else timeline.latest) := by
  apply projectSnapshotRemoval_eq h.lineage hid h.latest
  intro hlatest parent hparent hmem hne
  rcases hpreferred with rfl | rfl
  · exact h.newestOf_erase hlatest hparent hmem hne
  · cases hparent

theorem transition_eq_ok {operation : InventoryOperation} {snapshotId : SnapshotId}
    {operationId : String} {call : TransitionCall}
    (hhead : timeline.inventory.inventoryHead blake3 projectId = .ok head) :
    timeline.transition blake3 projectId operation snapshotId operationId = .ok call ↔
      call = ⟨operation, snapshotId, head.id.toHex, operationId⟩ := by
  rw [Timeline.transition, hhead]
  exact ⟨fun h => (Except.ok.inj h).symm, fun h => congrArg Except.ok h.symm⟩

/-- A created snapshot is new in the lineage. -/
theorem TimelineSound.create (h : TimelineSound blake3 projectId timeline removed head states)
    (hsafe : HashSafe blake3 used) {snapshotId : SnapshotId} {operationId : String}
    {call : TransitionCall} (hfresh : snapshotId ∉ removed)
    (hcall : timeline.transition blake3 projectId .add snapshotId operationId = .ok call)
    (hhashes : Hashes blake3 used timeline.inventory projectId call)
    (hfits : Fits blake3 timeline.inventory projectId call)
    (hok : timeline.create blake3 projectId snapshotId operationId = .ok after) :
    ∃ head states, TimelineSound blake3 projectId after removed head states := by
  simp only [Timeline.create, hcall, except_bind_ok, except_bind_eq_ok, except_pure_eq_ok] at hok
  obtain ⟨newHeadId, hrun, rfl⟩ := hok
  obtain rfl := (transition_eq_ok h.lineage.current).mp hcall
  obtain ⟨transition, happly, hlineage⟩ := h.lineage.commit hsafe hhashes hfits rfl hrun
  rw [InventoryOperation.apply] at happly
  split_ifs at happly with hmem
  have hfold : foldStates (transition.state :: states) = insert snapshotId (foldStates states) :=
    (Option.some.inj happly).symm
  have hadded : addedIds (transition.state :: states) = snapshotId :: addedIds states := rfl
  have hnew : snapshotId ∉ addedIds states := by
    intro hold
    rcases h.covered snapshotId hold with hin | hin
    · exact hmem hin
    · exact hfresh hin
  refine ⟨_, _, hlineage, ?_, ?_, ?_, ?_, ?_⟩
  · rw [hadded]
    exact List.nodup_cons.mpr ⟨hnew, h.nodup⟩
  · rw [hadded, hfold]
    intro id hid
    rcases List.mem_cons.mp hid with rfl | hid
    · exact Or.inl (Finset.mem_insert_self _ _)
    · rcases h.covered id hid with hin | hin
      · exact Or.inl (Finset.mem_insert_of_mem hin)
      · exact Or.inr hin
  · rw [newestOf, hadded, hfold, List.find?_cons_of_pos]
    exact decide_eq_true (Finset.mem_insert_self _ _)
  · rw [hadded, hfold]
    intro id hid parent hparent
    change Function.update timeline.parents snapshotId timeline.latest id = some parent at hparent
    by_cases heq : id = snapshotId
    · subst heq
      rw [Function.update_self, h.latest] at hparent
      exact List.mem_cons_of_mem _ (List.mem_of_find?_eq_some hparent)
    · rw [Function.update_of_ne heq] at hparent
      exact List.mem_cons_of_mem _
        (h.parent_added id (Finset.mem_of_mem_insert_of_ne hid heq) parent hparent)
  · rw [hadded, hfold]
    intro id hid parent hparentMem hparent
    change Function.update timeline.parents snapshotId timeline.latest id = some parent at hparent
    have hnotNew : ∀ other ∈ addedIds states, other ∉ foldStates states →
        other ∉ insert snapshotId (foldStates states) := by
      intro other hother hnot hin
      rcases Finset.mem_insert.mp hin with rfl | hin
      · exact hnew hother
      · exact hnot hin
    by_cases heq : id = snapshotId
    · subst heq
      rw [Function.update_self, h.latest] at hparent
      obtain ⟨-, between, rest, hsplit, hbetween⟩ := List.find?_eq_some_iff_append.mp hparent
      refine ⟨[], between, rest, by rw [hsplit]; rfl, fun other hother => ?_⟩
      apply hnotNew other
      · rw [hsplit]
        exact List.mem_append_left _ hother
      · intro hin
        have hbad := hbetween other hother
        rw [decide_eq_true hin] at hbad
        cases hbad
    · rw [Function.update_of_ne heq] at hparent
      have hidOld := Finset.mem_of_mem_insert_of_ne hid heq
      have hparentAdded := h.parent_added id hidOld parent hparent
      have hparentOld : parent ∈ foldStates states :=
        Finset.mem_of_mem_insert_of_ne hparentMem fun hsame => hnew (hsame ▸ hparentAdded)
      obtain ⟨before, between, rest, hsplit, hbetween⟩ := h.adjacent id hidOld parent hparentOld
        hparent
      refine ⟨snapshotId :: before, between, rest, by rw [hsplit]; rfl, fun other hother => ?_⟩
      apply hnotNew other _ (hbetween other hother)
      rw [hsplit]
      simp [hother]

/-- A deleted snapshot leaves the lineage's adds as they are. -/
theorem TimelineSound.delete (h : TimelineSound blake3 projectId timeline removed head states)
    (hsafe : HashSafe blake3 used) {snapshotId : SnapshotId} {operationId : String}
    {call : TransitionCall}
    (hcall : timeline.transition blake3 projectId .remove snapshotId operationId = .ok call)
    (hhashes : Hashes blake3 used timeline.inventory projectId call)
    (hok : timeline.delete blake3 projectId snapshotId operationId = .ok after) :
    ∃ head states, TimelineSound blake3 projectId after (insert snapshotId removed) head states := by
  simp only [Timeline.delete, hcall, except_bind_ok, except_bind_eq_ok, except_pure_eq_ok] at hok
  obtain ⟨⟨count, latest⟩, hproject, newHeadId, hrun, rfl⟩ := hok
  obtain rfl := (transition_eq_ok h.lineage.current).mp hcall
  have hfits : Fits blake3 timeline.inventory projectId
      ⟨.remove, snapshotId, head.id.toHex, operationId⟩ := by
    intro _ _ _ _ hoverfills
    cases hoverfills.operation
  obtain ⟨transition, happly, hlineage⟩ := h.lineage.commit hsafe hhashes hfits rfl hrun
  rw [InventoryOperation.apply] at happly
  split_ifs at happly with hmem
  have hfold : foldStates (transition.state :: states) = (foldStates states).erase snapshotId :=
    (Option.some.inj happly).symm
  have hadded : addedIds (transition.state :: states) = addedIds states := rfl
  rw [h.project hmem (Or.inl rfl)] at hproject
  obtain ⟨-, hlatest⟩ := Prod.mk.inj (Except.ok.inj hproject)
  refine ⟨_, _, hlineage, hadded ▸ h.nodup, ?_, ?_, ?_, ?_⟩
  · rw [hadded, hfold]
    intro id hid
    by_cases heq : id = snapshotId
    · exact Or.inr (heq ▸ Finset.mem_insert_self _ _)
    · rcases h.covered id hid with hin | hin
      · exact Or.inl (Finset.mem_erase.mpr ⟨heq, hin⟩)
      · exact Or.inr (Finset.mem_insert_of_mem hin)
  · have hnewest : newestOf (transition.state :: states) ((foldStates states).erase snapshotId) =
        newestOf states ((foldStates states).erase snapshotId) := rfl
    rw [hfold, hnewest, ← hlatest]
    split_ifs with hsame
    · rfl
    · exact h.latest.trans (newestOf_erase_of_ne fun hlast => hsame (h.latest.trans hlast)).symm
  · rw [hadded, hfold]
    exact fun id hid => h.parent_added id (Finset.mem_of_mem_erase hid)
  · rw [hadded, hfold]
    intro id hid parent hparentMem hparent
    obtain ⟨before, between, rest, hsplit, hbetween⟩ := h.adjacent id (Finset.mem_of_mem_erase hid)
      parent (Finset.mem_of_mem_erase hparentMem) hparent
    exact ⟨before, between, rest, hsplit, fun other hother hin =>
      hbetween other hother (Finset.mem_of_mem_erase hin)⟩

end Timeline

end CheckPo
