/-
Projected removals over whole runs of creating and deleting snapshots.
-/
import CheckPo.RemovalProjection

namespace CheckPo

/-- What the projected removal of any member is: the count goes down by one, and the latest
snapshot, when it is the removed one, becomes the surviving member that was added last.
The parent is the recorded one, or none, which leaves the walk over the lineage. -/
structure RemovalProjected (blake3 : Bytes → Digest32) (projectId : ProjectId)
    (timeline : Timeline) (head : InventoryHead) (states : List InventoryState) : Prop where
  chain : Chain blake3 timeline.inventory projectId head states
  projected : ∀ member ∈ foldStates states, ∀ preferred,
    preferred = timeline.parents member ∨ preferred = none → ∃ newLatest,
      projectSnapshotRemoval blake3 timeline.inventory projectId member timeline.latest preferred =
          .ok ((foldStates states).card - 1, newLatest) ∧
        (timeline.latest = some member →
          newLatest = newestOf states ((foldStates states).erase member) ∧
            (newLatest = none ↔ foldStates states = {member})) ∧
        (timeline.latest ≠ some member → newLatest = timeline.latest)

section Timeline

variable {blake3 : Bytes → Digest32} {used : Set Bytes} {projectId : ProjectId}
variable {store : InventoryStore} {timeline : Timeline} {head : InventoryHead}
variable {states : List InventoryState} {removed : Finset SnapshotId}

theorem TimelineSound.projected
    (h : TimelineSound blake3 projectId timeline removed head states) :
    RemovalProjected blake3 projectId timeline head states where
  chain := h.lineage.chain
  projected member hmember preferred hpreferred := by
    refine ⟨_, h.project hmember hpreferred, fun hlatest => ?_, fun hlatest => if_neg hlatest⟩
    rw [if_pos hlatest]
    refine ⟨rfl, ?_⟩
    rw [newestOf_eq_none_iff (Finset.erase_subset _ _), Finset.erase_eq_empty_iff]
    constructor
    · rintro (hempty | hsingle)
      · rw [hempty] at hmember
        exact absurd hmember (Finset.notMem_empty _)
      · exact hsingle
    · exact Or.inr

/-- Every timeline that is reached without adding to a full leaf is sound. -/
theorem TimelineReached.sound (hsafe : HashSafe blake3 used) {start : InventoryStore}
    (hstart : ∃ head, Lineage blake3 start projectId head [])
    (h : TimelineReached blake3 projectId
      (fun call store => Hashes blake3 used store projectId call ∧ Fits blake3 store projectId call)
      start timeline removed) :
    ∃ head states, TimelineSound blake3 projectId timeline removed head states := by
  induction h with
  | start parents =>
      obtain ⟨head, hlineage⟩ := hstart
      exact ⟨head, [], hlineage, List.nodup_nil, nofun, rfl, nofun, nofun⟩
  | create _ hfresh hcall hmay hok ih =>
      obtain ⟨head, states, hsound⟩ := ih
      exact hsound.create hsafe hfresh hcall hmay.1 hmay.2 hok
  | delete _ hcall hmay hok ih =>
      obtain ⟨head, states, hsound⟩ := ih
      exact hsound.delete hsafe hcall hmay.1 hok

/-- A head has one chain. -/
theorem Chain.unique {other : List InventoryState} (h : Chain blake3 store projectId head states)
    (hother : Chain blake3 store projectId head other) : states = other := by
  induction h generalizing other with
  | first _ _ hparent _ =>
      cases hother with
      | first => rfl
      | next _ hsome _ _ =>
          rw [hparent] at hsome
          cases hsome
  | @next head parent earlier _ hparent _ hearlier ih =>
      cases hother with
      | first _ _ hnone _ =>
          rw [hnone] at hparent
          cases hparent
      | @next _ parent' earlier' _ hparent' _ hearlier' =>
          have hid : parent.id = parent'.id := Option.some.inj (hparent.symm.trans hparent')
          have hsame : parent = parent' := by
            have hload := hearlier.loaded
            rw [hid, hearlier'.loaded] at hload
            exact (Except.ok.inj hload).symm
          subst hsame
          rw [ih hearlier']

end Timeline

/-- Over every run of creating and deleting snapshots that adds to no full leaf, the
removal of any member is projected to the surviving member that was added last. -/
theorem removal_projection (blake3 : Bytes → Digest32) (used : Set Bytes)
    (hsafe : HashSafe blake3 used) (projectId : ProjectId) (start : InventoryStore)
    (snapshotNames : List String) (hfresh : start.head = none)
    (hstart : ((initializeSnapshotInventory blake3 projectId snapshotNames).run start).2 = .ok ())
    (timeline : Timeline) (removed : Finset SnapshotId)
    (hreached : TimelineReached blake3 projectId
      (fun call store => Hashes blake3 used store projectId call ∧ Fits blake3 store projectId call)
      ((initializeSnapshotInventory blake3 projectId snapshotNames).final start) timeline removed) :
    ∃ head states, timeline.inventory.inventoryHead blake3 projectId = .ok head ∧
      timeline.inventory.loadInventoryIds blake3 projectId head.state = .ok (foldStates states) ∧
      RemovalProjected blake3 projectId timeline head states := by
  obtain ⟨head, states, h⟩ := hreached.sound hsafe (initialize_lineage hfresh hstart)
  exact ⟨head, states, h.lineage.current, loadInventoryIds_eq_ok.mpr h.lineage.set, h.projected⟩

namespace Sample

/-- The states after a number of Adds, newest first. -/
def statesTo : Nat → List InventoryState
  | 0 => []
  | n + 1 => stateAt (n + 1) :: statesTo n

theorem foldStates_statesTo (n : Nat) : foldStates (statesTo n) = idsUpTo n := by
  induction n with
  | zero => rfl
  | succ n ih =>
      rw [idsUpTo_succ, ← ih]
      rfl

variable {store : InventoryStore} {n : Nat}

/-- The next snapshot of the run can be created. -/
theorem FilledTo.create {timeline : Timeline} (h : FilledTo n timeline.inventory)
    (hn : n ≤ maxLeafIds) :
    timeline.transition windowHash firstProject .add (fullId n) "create" = .ok (callAt n) ∧
      timeline.create windowHash firstProject (fullId n) "create" =
        .ok ⟨((callAt n).invoke windowHash firstProject).final timeline.inventory,
          some (fullId n), Function.update timeline.parents (fullId n) timeline.latest⟩ := by
  obtain ⟨-, ⟨newHeadId, hok⟩, -⟩ := h.step hn
  have hcall : timeline.transition windowHash firstProject .add (fullId n) "create" =
      .ok (callAt n) := (transition_eq_ok h.head).mpr rfl
  refine ⟨hcall, ?_⟩
  rw [Timeline.create, hcall]
  simp only [except_bind_ok, hok]
  rfl

/-- The timeline after a number of created snapshots. -/
def timelineAt : Nat → Timeline
  | 0 => ⟨started, none, fun _ => none⟩
  | n + 1 => ⟨filledStore (n + 1), some (fullId n),
      Function.update (timelineAt n).parents (fullId n) (timelineAt n).latest⟩

theorem inventory_timelineAt (n : Nat) : (timelineAt n).inventory = filledStore n := by
  cases n with
  | zero => rw [timelineAt, filledStore]
  | succ n => rw [timelineAt]

theorem timelineAt_reached {may : TransitionCall → InventoryStore → Prop}
    (hn : n ≤ maxLeafIds + 1) (hmay : ∀ k < n, may (callAt k) (filledStore k)) :
    TimelineReached windowHash firstProject may started (timelineAt n) ∅ := by
  induction n with
  | zero => exact .start _
  | succ n ih =>
      have hle := Nat.le_of_succ_le_succ hn
      have hreached := ih (Nat.le_of_succ_le hn) fun k hk => hmay k (Nat.lt_succ_of_lt hk)
      have hstore := inventory_timelineAt n
      have hfilled : FilledTo n (timelineAt n).inventory := by
        rw [hstore]
        exact filledTo_filledStore (Nat.le_succ_of_le hle)
      obtain ⟨hcall, hok⟩ := hfilled.create hle
      refine .create hreached (Finset.notMem_empty _) hcall ?_ ?_
      · rw [hstore]
        exact hmay n (Nat.lt_succ_self n)
      · rw [hok, hstore, timelineAt, filledStore]

/-- The chain of states grows with the Adds. -/
theorem FilledTo.chain_next (h : FilledTo n store) (hn : n ≤ maxLeafIds)
    (hchain : Chain windowHash store firstProject ⟨stateIdAt n, stateAt n⟩ (statesTo n)) :
    Chain windowHash (((callAt n).invoke windowHash firstProject).final store) firstProject
      ⟨stateIdAt (n + 1), stateAt (n + 1)⟩ (statesTo (n + 1)) := by
  have hlimit : n + 1 < 2 ^ 32 := Nat.lt_of_le_of_lt (Nat.succ_le_succ hn) (by decide)
  obtain ⟨hhashes, -, hnext⟩ := h.step hn
  have hkeeps : Keeps windowHash store
      (((callAt n).invoke windowHash firstProject).final store) := by
    rcases List.mem_cons.mp (Durable.final_mem ((callAt n).invoke windowHash firstProject) store)
      with hsame | hmem
    · rw [hsame]
      exact .refl store
    · exact keeps_trace hashSafe hhashes h.head _ hmem
  have hparent := hchain.keep hkeeps
  refine .next (loadState_of_inventoryHead hnext.head) rfl ?_ hparent
  rw [checkedAdd_one_eq_some, generation_stateAt, generation_stateAt,
    toNat_ofNat (Nat.lt_of_succ_lt hlimit), toNat_ofNat hlimit]

theorem chain_filledStore (hn : n ≤ maxLeafIds + 1) :
    Chain windowHash (filledStore n) firstProject ⟨stateIdAt n, stateAt n⟩ (statesTo n) := by
  induction n with
  | zero =>
      have hhead : started.inventoryHead windowHash firstProject =
          .ok ⟨stateIdAt 0, stateAt 0⟩ := filledTo_zero.head
      exact .first (loadState_of_inventoryHead hhead) rfl rfl rfl
  | succ n ih =>
      have hle := Nat.le_of_succ_le_succ hn
      exact (filledTo_filledStore (Nat.le_succ_of_le hle)).chain_next hle
        (ih (Nat.le_of_succ_le hn))

/-- With a leaf over the limit, the removal of no member can be projected. -/
theorem FilledTo.not_projected {timeline : Timeline} (hn : maxLeafIds < n) (hlt : n < 2 ^ 32)
    (h : FilledTo n timeline.inventory)
    (hchain : Chain windowHash timeline.inventory firstProject ⟨stateIdAt n, stateAt n⟩
      (statesTo n)) :
    ¬ ∃ head states, timeline.inventory.inventoryHead windowHash firstProject = .ok head ∧
      RemovalProjected windowHash firstProject timeline head states := by
  rintro ⟨head, states, hhead, hprojected⟩
  obtain rfl := Except.ok.inj (h.head.symm.trans hhead)
  obtain rfl := hprojected.chain.unique hchain
  have hmember : fullId 0 ∈ foldStates (statesTo n) := by
    rw [foldStates_statesTo]
    exact Finset.mem_image_of_mem _ (Finset.mem_range.mpr (Nat.zero_lt_of_lt hn))
  obtain ⟨newLatest, hproject, -⟩ := hprojected.projected _ hmember none (Or.inr rfl)
  obtain ⟨root, reference, leaf, hroot, hslot, hload⟩ := projectSnapshotRemoval_leaf hhead hproject
  obtain rfl := Except.ok.inj (h.root.symm.trans hroot)
  exact absurd (h.leaf_limit hlt hslot hload) (Nat.not_le_of_gt hn)

/-- Three created snapshots, the last of which is deleted again. -/
def trimmedTimeline : Timeline := ⟨trimmedStore, some (fullId 1), (timelineAt 3).parents⟩

theorem newestOf_statesTo (n : Nat) :
    newestOf (statesTo (n + 1)) (idsUpTo (n + 1)) = some (fullId n) := by
  have hadded : addedId (stateAt (n + 1)) = some (fullId n) := rfl
  rw [statesTo, newestOf_cons, hadded, Option.filter_some, idsUpTo_succ,
    if_pos (decide_eq_true (Finset.mem_insert_self _ _)), Option.some_or]

/-- What is added last is passed over once it is removed. -/
theorem newestOf_removed (h : n < 2 ^ 32) :
    newestOf (statesTo (n + 1)) (idsUpTo n) = newestOf (statesTo n) (idsUpTo n) := by
  have hadded : addedId (stateAt (n + 1)) = some (fullId n) := rfl
  rw [statesTo, newestOf_cons, hadded, Option.filter_some,
    if_neg (by simp [fullId_notMem h]), Option.none_or]

theorem delete_eq_ok {timeline : Timeline} {snapshotId : SnapshotId} {operationId : String}
    {call : TransitionCall} {count : Nat} {latest : Option SnapshotId} {newHeadId : String}
    (hproject : projectSnapshotRemoval windowHash timeline.inventory firstProject snapshotId
      timeline.latest (timeline.parents snapshotId) = .ok (count, latest))
    (hcall : timeline.transition windowHash firstProject .remove snapshotId operationId = .ok call)
    (hok : ((call.invoke windowHash firstProject).run timeline.inventory).2 = .ok newHeadId) :
    timeline.delete windowHash firstProject snapshotId operationId =
      .ok ⟨(call.invoke windowHash firstProject).final timeline.inventory, latest,
        timeline.parents⟩ := by
  rw [Timeline.delete, hproject, except_bind_ok, hcall]
  simp only [except_bind_ok, hok]
  rfl

theorem trimmedTimeline_reached : TimelineReached windowHash firstProject
    (fun call store => Hashes windowHash Used store firstProject call ∧
      Fits windowHash store firstProject call) started trimmedTimeline {fullId 2} := by
  have hthree : TimelineReached windowHash firstProject
      (fun call store => Hashes windowHash Used store firstProject call ∧
        Fits windowHash store firstProject call) started (timelineAt 3) ∅ :=
    timelineAt_reached (by decide) fun _ hk => filledStore_call (hk.trans (by decide))
  have hstore : (timelineAt 3).inventory = filledStore 3 := inventory_timelineAt 3
  have hfilled : FilledTo 3 (filledStore 3) := filledTo_filledStore (by decide)
  obtain ⟨hhashes, newHeadId, hok⟩ := trimmedStore_call
  have hcall : (timelineAt 3).transition windowHash firstProject .remove (fullId 2) "delete" =
      .ok (removalAt 2) := by
    rw [transition_eq_ok (hstore ▸ hfilled.head)]
    simp only [removalAt]
  obtain ⟨head, states, hsound⟩ := hthree.sound hashSafe (initialize_lineage rfl
    (congrArg Prod.snd initialize_run))
  have hhead : (timelineAt 3).inventory.inventoryHead windowHash firstProject =
      .ok ⟨stateIdAt 3, stateAt 3⟩ := hstore ▸ hfilled.head
  obtain rfl := Except.ok.inj (hhead.symm.trans hsound.lineage.current)
  have hchain : Chain windowHash (timelineAt 3).inventory firstProject ⟨stateIdAt 3, stateAt 3⟩
      (statesTo 3) := hstore ▸ chain_filledStore (by decide)
  obtain rfl := hsound.lineage.chain.unique hchain
  have hmember : fullId 2 ∈ foldStates (statesTo 3) := by
    rw [foldStates_statesTo, idsUpTo_succ]
    exact Finset.mem_insert_self _ _
  have herase : (foldStates (statesTo 3)).erase (fullId 2) = idsUpTo 2 := by
    rw [foldStates_statesTo, idsUpTo_succ, Finset.erase_insert (fullId_notMem (by decide))]
  have hlatest : (timelineAt 3).latest = some (fullId 2) := by
    rw [timelineAt]
  have hproject := hsound.project hmember (Or.inl rfl)
  rw [if_pos hlatest, herase, newestOf_removed (by decide), newestOf_statesTo 1] at hproject
  have hdelete := delete_eq_ok hproject hcall (hstore.symm ▸ hok)
  rw [hstore] at hdelete
  exact .delete hthree hcall (hstore ▸ ⟨hhashes, removalAt_fits⟩) hdelete

theorem removal_projection_sample : ∃ head states,
    trimmedTimeline.inventory.inventoryHead windowHash firstProject = .ok head ∧
      trimmedTimeline.inventory.loadInventoryIds windowHash firstProject head.state =
        .ok (foldStates states) ∧
      RemovalProjected windowHash firstProject trimmedTimeline head states :=
  removal_projection windowHash Used hashSafe firstProject noInventory [] rfl
    (congrArg Prod.snd initialize_run) trimmedTimeline {fullId 2} trimmedTimeline_reached

theorem overfilled_removal : HashSafe windowHash Used ∧
    ((initializeSnapshotInventory windowHash firstProject []).run noInventory).2 = .ok () ∧
    ∃ timeline, TimelineReached windowHash firstProject
        (fun call store => Hashes windowHash Used store firstProject call) started timeline ∅ ∧
      ¬ ∃ head states, timeline.inventory.inventoryHead windowHash firstProject = .ok head ∧
        RemovalProjected windowHash firstProject timeline head states := by
  have hstore := inventory_timelineAt (maxLeafIds + 1)
  have hreached := @timelineAt_reached (maxLeafIds + 1)
    (fun call store => Hashes windowHash Used store firstProject call) (Nat.le_refl _)
    fun k hk => (filledStore_step (Nat.le_of_lt_succ hk)).1
  refine ⟨hashSafe, congrArg Prod.snd initialize_run, timelineAt (maxLeafIds + 1), hreached,
    FilledTo.not_projected (Nat.lt_succ_self _)
      (Nat.lt_of_le_of_lt (Nat.succ_le_succ (Nat.le_refl maxLeafIds)) (by decide)) ?_ ?_⟩
  · rw [hstore]
    exact filledTo_filledStore (Nat.le_refl _)
  · rw [hstore]
    exact chain_filledStore (Nat.le_refl _)

end Sample

end CheckPo
