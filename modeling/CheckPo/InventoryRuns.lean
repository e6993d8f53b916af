/-
The inventory over whole runs: what its sets are after any sequence of transitions,
when a transition is atomic, and what the files it writes decode to.
-/
import CheckPo.GrowingInventory

namespace CheckPo

/-- Over every run whose calls add to no full leaf, the ids of the head are what the
lineage of the head adds and removes. -/
theorem inventory_runs (blake3 : Bytes → Digest32) (used : Set Bytes)
    (hsafe : HashSafe blake3 used) (projectId : ProjectId) (start : InventoryStore)
    (snapshotNames : List String) (hfresh : start.head = none)
    (hstart : ((initializeSnapshotInventory blake3 projectId snapshotNames).run start).2 = .ok ())
    (store : InventoryStore)
    (hreached : Reached (fun call : TransitionCall => call.invoke blake3 projectId)
      (fun call store => Hashes blake3 used store projectId call ∧ Fits blake3 store projectId call)
      (fun _ => True)
      ((initializeSnapshotInventory blake3 projectId snapshotNames).final start) store) :
    ∃ head states, store.inventoryHead blake3 projectId = .ok head ∧
      SetSemantics blake3 used store projectId head states := by
  have hlineage : ∃ head states, Lineage blake3 store projectId head states := by
    obtain ⟨first, hfirst⟩ := initialize_lineage hfresh hstart
    apply Reached.of_writes ⟨first, [], hfirst⟩ _ hreached
    rintro call store ⟨head, states, h⟩ ⟨hhashes, hfits⟩ after hafter
    rcases h.write hsafe hhashes hfits after hafter with hold | ⟨transition, hnew⟩
    · exact ⟨head, states, hold⟩
    · exact ⟨_, _, hnew⟩
  obtain ⟨head, states, h⟩ := hlineage
  exact ⟨head, states, h.current, h.semantics hsafe⟩

namespace Sample

/-- The inventory of a new repository. -/
def started : InventoryStore :=
  (initializeSnapshotInventory windowHash firstProject []).final noInventory

/-- The inventory after a number of Adds. -/
def filledStore : Nat → InventoryStore
  | 0 => started
  | n + 1 => ((callAt n).invoke windowHash firstProject).final (filledStore n)

variable {store : InventoryStore} {n : Nat}

theorem filledTo_filledStore (hn : n ≤ maxLeafIds + 1) : FilledTo n (filledStore n) := by
  induction n with
  | zero => exact filledTo_zero
  | succ n ih => exact ((ih (Nat.le_of_succ_le hn)).step (Nat.le_of_succ_le_succ hn)).2.2

/-- An Add to a leaf that is not full. -/
theorem FilledTo.fits (h : FilledTo n store) (hn : n < maxLeafIds) :
    Fits windowHash store firstProject (callAt n) := by
  have hlimit : n < 2 ^ 32 := hn.trans (by decide)
  intro head ids hhead hids hoverfills
  obtain rfl := Except.ok.inj (h.head.symm.trans hhead)
  obtain ⟨rfl, -⟩ := (h.set ids).mp (loadInventoryIds_eq_ok.mp hids)
  have hfull := hoverfills.full
  rw [show (callAt n).snapshotId.firstByte = 255 from rfl, length_shard_idsUpTo hlimit.le] at hfull
  exact absurd hfull hn.ne

theorem removalAt_fits : Fits windowHash store firstProject (removalAt n) := by
  intro head ids _ _ hoverfills
  cases hoverfills.operation

theorem filledStore_reached {may : TransitionCall → InventoryStore → Prop}
    {crashes : InventoryStore → Prop} (hmay : ∀ k < n, may (callAt k) (filledStore k)) :
    Reached (fun call : TransitionCall => call.invoke windowHash firstProject) may crashes started
      (filledStore n) := by
  induction n with
  | zero => exact .start
  | succ n ih =>
      have hbefore := ih fun k hk => hmay k (Nat.lt_succ_of_lt hk)
      exact .ended hbefore (hmay n (Nat.lt_succ_self n))

theorem filledStore_call (hn : n < maxLeafIds) :
    Hashes windowHash Used (filledStore n) firstProject (callAt n) ∧
      Fits windowHash (filledStore n) firstProject (callAt n) := by
  have hfilled := filledTo_filledStore (hn.le.trans (Nat.le_succ _))
  exact ⟨(hfilled.step hn.le).1, hfilled.fits hn⟩

/-- Three Adds and the removal of the last id. -/
def trimmedStore : InventoryStore :=
  ((removalAt 2).invoke windowHash firstProject).final (filledStore 3)

theorem trimmedStore_call : Hashes windowHash Used (filledStore 3) firstProject (removalAt 2) ∧
    ∃ id, (((removalAt 2).invoke windowHash firstProject).run (filledStore 3)).2 = .ok id := by
  have hfilled : FilledTo 3 (filledStore 3) := filledTo_filledStore (by decide)
  exact hfilled.remove (by decide) (by decide)

theorem inventory_runs_sample : ∃ head states,
    trimmedStore.inventoryHead windowHash firstProject = .ok head ∧
      SetSemantics windowHash Used trimmedStore firstProject head states :=
  inventory_runs windowHash Used hashSafe firstProject noInventory [] rfl
    (congrArg Prod.snd initialize_run) trimmedStore
    (.ended (filledStore_reached fun _ hk => filledStore_call (hk.trans (by decide)))
      (show Hashes windowHash Used (filledStore 3) firstProject (removalAt 2) ∧
        Fits windowHash (filledStore 3) firstProject (removalAt 2) from
          ⟨trimmedStore_call.1, removalAt_fits⟩))

theorem filledStore_step (hn : n ≤ maxLeafIds) :
    Hashes windowHash Used (filledStore n) firstProject (callAt n) ∧
      ∃ id, (((callAt n).invoke windowHash firstProject).run (filledStore n)).2 = .ok id := by
  obtain ⟨hhashes, hok, -⟩ := (filledTo_filledStore (Nat.le_succ_of_le hn)).step hn
  exact ⟨hhashes, hok⟩

/-- Successful Adds reach every size, also one more than a leaf may have. -/
theorem overfilled_run : HashSafe windowHash Used ∧
    ((initializeSnapshotInventory windowHash firstProject []).run noInventory).2 = .ok () ∧
    ∃ store, Reached (fun call : TransitionCall => call.invoke windowHash firstProject)
        (fun call store => Hashes windowHash Used store firstProject call ∧
          ∃ id, ((call.invoke windowHash firstProject).run store).2 = .ok id)
        (fun _ => False) started store ∧
      ¬ ∃ head states, store.inventoryHead windowHash firstProject = .ok head ∧
        SetSemantics windowHash Used store firstProject head states := by
  have hfilled := filledTo_filledStore (Nat.le_refl (maxLeafIds + 1))
  refine ⟨hashSafe, congrArg Prod.snd initialize_run, filledStore (maxLeafIds + 1),
    filledStore_reached fun k hk => filledStore_step (Nat.le_of_lt_succ hk), ?_⟩
  rintro ⟨head, states, hhead, hsemantics⟩
  obtain rfl := Except.ok.inj (hfilled.head.symm.trans hhead)
  have hlimit := ((hfilled.set _).mp (loadInventoryIds_eq_ok.mp hsemantics.ids)).2
  exact absurd hlimit (Nat.not_succ_le_self _)

end Sample

/-- A transition of an inventory that can be read is atomic and can be repeated, unless
it adds to a full leaf. -/
theorem transition_atomic_iff (blake3 : Bytes → Digest32) (used : Set Bytes)
    (hsafe : HashSafe blake3 used) (store : InventoryStore) (projectId : ProjectId)
    (call : TransitionCall) (hhashes : Hashes blake3 used store projectId call)
    (head : InventoryHead) (hhead : store.inventoryHead blake3 projectId = .ok head)
    (ids : Finset SnapshotId)
    (hids : store.loadInventoryIds blake3 projectId head.state = .ok ids) :
    Atomic blake3 used store projectId head ids call ↔ ¬ Overfills head ids call := by
  have hset := loadInventoryIds_eq_ok.mp hids
  constructor
  · exact fun hatomic hoverfills => hoverfills.not_atomic hsafe hhashes hhead hset hatomic
  · intro hfits
    exact ⟨crash_of_fits hsafe hhashes hhead hset hfits,
      fun newHeadId => retry_returns hsafe hhashes hhead,
      fun hstale hrecords => stale_fails hsafe hhashes hhead hstale hrecords⟩

namespace Sample

theorem transition_atomic_sample : Atomic windowHash Used (filledStore 2) firstProject
    ⟨stateIdAt 2, stateAt 2⟩ (idsUpTo 2) (callAt 2) := by
  have hcall := filledStore_call (show 2 < maxLeafIds by decide)
  have hfilled := filledTo_filledStore (show 2 ≤ maxLeafIds + 1 by decide)
  have hids := loadInventoryIds_eq_ok.mpr ((hfilled.set _).mpr ⟨rfl, by decide⟩)
  exact (transition_atomic_iff windowHash Used hashSafe (filledStore 2) firstProject (callAt 2)
    hcall.1 ⟨stateIdAt 2, stateAt 2⟩ hfilled.head (idsUpTo 2) hids).mpr
      (hcall.2 _ _ hfilled.head hids)

theorem overfilled_transition : ∃ store head ids call, HashSafe windowHash Used ∧
    Hashes windowHash Used store firstProject call ∧
    store.inventoryHead windowHash firstProject = .ok head ∧
    store.loadInventoryIds windowHash firstProject head.state = .ok ids ∧
    ¬ Atomic windowHash Used store firstProject head ids call := by
  have hfilled := filledTo_filledStore (Nat.le_succ maxLeafIds)
  have hset := (hfilled.set _).mpr ⟨rfl, Nat.le_refl _⟩
  have hlt : maxLeafIds < 2 ^ 32 := by decide
  obtain ⟨hhashes, -, -⟩ := hfilled.step (Nat.le_refl _)
  have hoverfills : Overfills ⟨stateIdAt maxLeafIds, stateAt maxLeafIds⟩ (idsUpTo maxLeafIds)
      (callAt maxLeafIds) := by
    refine ⟨rfl, rfl, show "create" ≠ "" by decide, fullId_notMem hlt, ?_,
      length_shard_idsUpTo hlt.le⟩
    rw [generation_stateAt, toNat_ofNat hlt]
    decide
  exact ⟨filledStore maxLeafIds, _, _, callAt maxLeafIds, hashSafe, hhashes, hfilled.head,
    loadInventoryIds_eq_ok.mpr hset, hoverfills.not_atomic hashSafe hhashes hfilled.head hset⟩

end Sample

/-- The formats of the inventory: what a decoder accepts re-encodes to the same bytes, and
what starting the inventory or a transition writes, wherever it is cut short, decodes back
to the value written. -/
theorem inventory_codec (blake3 : Bytes → Digest32) (used : Set Bytes)
    (hnonzero : ∀ content ∈ used, blake3 content ≠ zeroDigest) :
    (∀ bytes state, decodeState bytes = .ok state → encodeState state = bytes) ∧
      (∀ bytes root, decodeSetRoot bytes = .ok root → encodeSetRoot root = .ok bytes) ∧
      (∀ bytes leaf, decodeSetLeaf bytes = .ok leaf → encodeSetLeaf leaf = .ok bytes) ∧
      (∀ projectId snapshotNames before, ∀ after ∈ ((initializeSnapshotInventory blake3 projectId
        snapshotNames).run before).1,
          WrittenFiles blake3 (initialValues blake3 projectId) before after) ∧
      ∀ projectId operation snapshotId expectedHeadId operationId before,
        operationDomain ++ utf8 operationId ∈ used →
        (∀ after ∈ ((transitionInventory blake3 projectId operation snapshotId expectedHeadId
          operationId).run before).1, Within used after) →
        ∀ after ∈ ((transitionInventory blake3 projectId operation snapshotId expectedHeadId
          operationId).run before).1, WrittenFiles blake3 (transitionValues blake3 before projectId
            operation snapshotId expectedHeadId operationId) before after :=
  ⟨fun _ _ h => encodeState_of_decodeState h, fun _ _ h => (encodeSetRoot_of_decodeSetRoot h).1,
    fun _ _ h => (encodeSetLeaf_of_decodeSetLeaf h).1,
    fun _ snapshotNames _ => initialize_written snapshotNames,
    fun _ _ _ _ _ _ hoperation hwithin => transition_written hnonzero hoperation hwithin⟩

namespace Sample

/-- Starting the inventory, and a removal after three Adds, which returns. -/
theorem inventory_codec_sample :
    (∀ after ∈ ((initializeSnapshotInventory windowHash firstProject []).run noInventory).1,
      WrittenFiles windowHash (initialValues windowHash firstProject) noInventory after) ∧
    (∃ id, ((transitionInventory windowHash firstProject .remove (fullId 2) (stateIdAt 3).toHex
      "delete").run (filledStore 3)).2 = .ok id) ∧
    ∀ after ∈ ((transitionInventory windowHash firstProject .remove (fullId 2) (stateIdAt 3).toHex
      "delete").run (filledStore 3)).1,
        WrittenFiles windowHash (transitionValues windowHash (filledStore 3) firstProject .remove
          (fullId 2) (stateIdAt 3).toHex "delete") (filledStore 3) after := by
  have hinvoke : (removalAt 2).invoke windowHash firstProject = transitionInventory windowHash
      firstProject .remove (fullId 2) (stateIdAt 3).toHex "delete" := by
    simp only [TransitionCall.invoke, removalAt]
  obtain ⟨hhashes, hok⟩ := trimmedStore_call
  have htrace := hhashes.trace
  rw [hinvoke] at hok htrace
  obtain ⟨-, -, -, hinitial, htransition⟩ := inventory_codec windowHash Used hashSafe.nonzero
  exact ⟨hinitial firstProject [] noInventory, hok,
    htransition firstProject .remove (fullId 2) (stateIdAt 3).toHex "delete" (filledStore 3)
      hhashes.operationId htrace⟩

end Sample

end CheckPo
