/-
The inventory's part in a garbage collection: the states that lead to the head, the head's
set root and its leaves are reachable, and every other file of the inventory's stores
becomes a candidate.
-/
import CheckPo.GarbageCandidates
import CheckPo.InventoryAtomic
import CheckPo.RecoveryConflicts

namespace CheckPo

open FileTree Relation

section Hash

variable {blake3 : Bytes → Digest32} {projectId : ProjectId}

/-! The states. -/

/-- The state that a stored state names as its parent. -/
def InventoryStore.Parent (blake3 : Bytes → Digest32) (store : InventoryStore)
    (projectId : ProjectId) (id parent : ObjectId) : Prop :=
  ∃ head, store.loadState blake3 id projectId = .ok head ∧ head.state.parent = some parent

/-- A state from which the head was reached. -/
def InventoryStore.Past (blake3 : Bytes → Digest32) (store : InventoryStore)
    (projectId : ProjectId) (head : InventoryHead) (id : ObjectId) : Prop :=
  ReflTransGen (store.Parent blake3 projectId) head.id id

theorem mem_reachableStates {store : InventoryStore} {cursor : InventoryHead}
    (hcursor : store.loadState blake3 cursor.id projectId = .ok cursor) {visited : Finset ObjectId}
    {found result : Finset Path}
    (h : RepositoryFiles.reachableStates blake3 store projectId cursor visited found = .ok result)
    {path : Path} :
    path ∈ result ↔ path ∈ found ∨
      ∃ id, store.Past blake3 projectId cursor id ∧ path = inventoryStatePath id := by
  induction cursor, visited, found using
    RepositoryFiles.reachableStates.induct blake3 store projectId with
  | case1 cursor visited found hmem =>
      rw [RepositoryFiles.reachableStates, if_pos hmem] at h
      cases h
  | case2 cursor visited found hmem hnone =>
      rw [RepositoryFiles.reachableStates, if_neg hmem, hnone] at h
      cases h
      rw [Finset.mem_insert, or_comm]
      refine or_congr_right ⟨fun heq => ⟨cursor.id, .refl, heq⟩, ?_⟩
      rintro ⟨id, hpast, rfl⟩
      rcases ReflTransGen.cases_head hpast with rfl | ⟨parent, ⟨head, hload, hparent⟩, -⟩
      · rfl
      · obtain rfl := Except.ok.inj (hcursor.symm.trans hload)
        rw [hnone] at hparent
        cases hparent
  | case3 cursor visited found hmem parentId hparent error hload =>
      rw [RepositoryFiles.reachableStates, if_neg hmem, hparent] at h
      simp only [hload] at h
      cases h
  | case4 cursor visited found hmem parentId hparent parent hload hgeneration ih =>
      rw [RepositoryFiles.reachableStates, if_neg hmem, hparent] at h
      simp only [hload, dif_pos hgeneration] at h
      obtain rfl := (loadState_eq_ok.mp hload).1
      rw [ih hload h, Finset.mem_insert, or_comm, or_comm (a := path = _), or_left_comm]
      refine or_congr_right ?_
      constructor
      · rintro (⟨id, hpast, hpath⟩ | heq)
        · exact ⟨id, .head ⟨cursor, hcursor, hparent⟩ hpast, hpath⟩
        · exact ⟨cursor.id, .refl, heq⟩
      · rintro ⟨id, hpast, rfl⟩
        rcases ReflTransGen.cases_head hpast with rfl | ⟨next, ⟨head, hhead, hnext⟩, hrest⟩
        · exact .inr rfl
        · obtain rfl := Except.ok.inj (hcursor.symm.trans hhead)
          obtain rfl := Option.some.inj (hparent.symm.trans hnext)
          exact .inl ⟨id, hrest, rfl⟩
  | case5 cursor visited found hmem parentId hparent parent hload hgeneration =>
      rw [RepositoryFiles.reachableStates, if_neg hmem, hparent] at h
      simp only [hload, dif_neg hgeneration] at h
      cases h

/-! The leaves. -/

/-- A leaf of a set root. -/
def HasLeaf (setRoot : SetRoot) (id : ObjectId) : Prop :=
  ∃ reference, some reference ∈ setRoot.leaves ∧ reference.id = id

theorem mem_foldlM_reachableLeaf {store : InventoryStore} {slots : List (Option LeafRef × Nat)}
    {found result : Finset Path}
    (h : slots.foldlM (RepositoryFiles.reachableLeaf blake3 store projectId) found = .ok result)
    {path : Path} :
    path ∈ result ↔ path ∈ found ∨ ∃ reference, some reference ∈ slots.map Prod.fst ∧
      path = inventorySetLeafPath reference.id := by
  induction slots generalizing found with
  | nil =>
      cases h
      simp
  | cons slot rest ih =>
      rw [List.foldlM_cons, except_bind_eq_ok] at h
      rcases h with ⟨middle, hslot, hrest⟩
      rw [ih hrest, List.map_cons]
      rcases slot with ⟨_ | reference, index⟩
      · cases hslot
        simp
      · simp only [RepositoryFiles.reachableLeaf, except_bind_eq_ok, except_pure_eq_ok] at hslot
        rcases hslot with ⟨leaf, -, rfl⟩
        rw [Finset.mem_insert]
        simp only [List.mem_cons, Option.some.injEq]
        constructor
        · rintro ((rfl | hfound) | ⟨other, hother, hpath⟩)
          · exact .inr ⟨reference, .inl rfl, rfl⟩
          · exact .inl hfound
          · exact .inr ⟨other, .inr hother, hpath⟩
        · rintro (hfound | ⟨other, rfl | hother, hpath⟩)
          · exact .inl (.inr hfound)
          · exact .inl (.inl hpath)
          · exact .inr ⟨other, hother, hpath⟩

/-! The files. -/

section Files

variable {files : RepositoryFiles} {root : String} {store : ContentStore}

theorem validateInventoryContentPath_eq_ok {path : Path} (hstarts : store.directory <+: path)
    (h : RepositoryFiles.validateInventoryContentPath root store path = .ok ()) :
    ∃ id, path = store.filePath id := by
  rcases hstarts with ⟨rest, rfl⟩
  unfold RepositoryFiles.validateInventoryContentPath at h
  rw [List.drop_left] at h
  split at h
  · next shard fileName =>
      simp only [except_guard_eq_ok] at h
      rcases h with ⟨-, h⟩
      split at h
      · cases h
      · next idText hstrip =>
          split at h
          · cases h
          · next id hparse =>
              simp only [except_guard_eq_ok, ne_eq, not_not, and_true] at h
              refine ⟨id, ?_⟩
              rw [h, stripSuffix_eq_some.mp hstrip, ← toHex_of_parse hparse,
                ContentStore.filePath, ContentStore.shardPath, List.append_assoc,
                List.singleton_append]
  · cases h

theorem validateInventoryContentPath_filePath (root : String) (store : ContentStore)
    (id : Digest32) :
    RepositoryFiles.validateInventoryContentPath root store (store.filePath id) = .ok () := by
  have hdrop : (store.filePath id).drop store.directory.length =
      [hexByte id.firstByte, id.toHex ++ store.suffix] := by
    rw [ContentStore.filePath, ContentStore.shardPath, List.append_assoc, List.drop_left]
    rfl
  rw [RepositoryFiles.validateInventoryContentPath, hdrop]
  simp [RepositoryFiles.isLowerHex_hexByte, stripSuffix_append, parseLowerHexId_toHex]

/-- A file of a store that is not reachable, with its size. -/
def Unreachable (files : RepositoryFiles) (store : ContentStore) (reachable : Finset Path)
    (candidate : Path × Nat) : Prop :=
  candidate.1 ∉ reachable ∧ ∃ id content, candidate.1 = store.filePath id ∧
    files.entry candidate.1 = some (.file content) ∧ candidate.2 = content.length

theorem mem_visitInventoryEntry {reachable : Finset Path} {candidates result : List (Path × Nat)}
    {path : Path} (hstarts : store.directory <+: path)
    (h : files.visitInventoryEntry root store reachable candidates path = .ok result)
    {candidate : Path × Nat} :
    candidate ∈ result ↔ candidate ∈ candidates ∨
      candidate.1 = path ∧ Unreachable files store reachable candidate := by
  have hskip : (∀ content, files.entry path ≠ some (.file content)) → result = candidates →
      (candidate ∈ result ↔ candidate ∈ candidates ∨
        candidate.1 = path ∧ Unreachable files store reachable candidate) := by
    rintro hfile rfl
    refine (or_iff_left ?_).symm
    rintro ⟨rfl, -, id, content, -, hcontent, -⟩
    exact hfile content hcontent
  unfold RepositoryFiles.visitInventoryEntry at h
  split at h
  · cases h
  · next hdirectory =>
      split at h
      · split_ifs at h
        apply hskip
        · rw [hdirectory]
          exact nofun
        · exact (Except.ok.inj h).symm
      · cases h
  · next content hfile =>
      simp only [except_bind_eq_ok, except_pure_eq_ok] at h
      rcases h with ⟨_, hvalid, rfl⟩
      rcases validateInventoryContentPath_eq_ok hstarts hvalid with ⟨id, rfl⟩
      have hself : candidate.1 = store.filePath id ∧ Unreachable files store reachable candidate ↔
          store.filePath id ∉ reachable ∧ candidate = (store.filePath id, content.length) := by
        constructor
        · rintro ⟨hpath, hnot, -, other, -, hother, hlength⟩
          rw [hpath] at hnot hother
          rw [hfile] at hother
          cases hother
          exact ⟨hnot, Prod.ext hpath hlength⟩
        · rintro ⟨hnot, rfl⟩
          exact ⟨rfl, hnot, id, content, rfl, hfile, rfl⟩
      rw [hself]
      split
      · next hin => simp [hin]
      · next hnot => simp [hnot]
  · cases h

theorem mem_visitInventoryStore {reachable : Finset Path}
    {candidates result : List (Path × Nat)}
    (h : files.visitInventoryStore root reachable candidates store = .ok result)
    {candidate : Path × Nat} :
    candidate ∈ result ↔ candidate ∈ candidates ∨ Unreachable files store reachable candidate := by
  have hloop : ∀ {paths : List Path} {candidates result : List (Path × Nat)},
      (∀ path ∈ paths, store.directory <+: path) →
      paths.foldlM (files.visitInventoryEntry root store reachable) candidates = .ok result →
      (candidate ∈ result ↔ candidate ∈ candidates ∨
        candidate.1 ∈ paths ∧ Unreachable files store reachable candidate) := by
    intro paths
    induction paths with
    | nil =>
        rintro candidates result - h
        cases h
        simp
    | cons path rest ih =>
        intro candidates result hpaths h
        rw [List.forall_mem_cons] at hpaths
        rw [List.foldlM_cons, except_bind_eq_ok] at h
        rcases h with ⟨middle, hstep, hrest⟩
        rw [ih hpaths.2 hrest, mem_visitInventoryEntry hpaths.1 hstep, List.mem_cons, or_assoc,
          ← or_and_right]
  rw [RepositoryFiles.visitInventoryStore] at h
  split at h
  · cases h
  · rw [hloop (fun path hpath => (mem_below.mp (mem_walk.mp hpath)).2.1) h]
    refine or_congr_right (and_iff_right_of_imp ?_)
    rintro ⟨-, id, content, hself, hfile, -⟩
    rw [hself] at hfile ⊢
    exact filePath_mem_walk (by rw [hfile]; exact Option.some_ne_none _)

/-- What the inventory's current state uses. -/
inductive InventoryUses (blake3 : Bytes → Digest32) (inventory : InventoryStore)
    (projectId : ProjectId) (head : InventoryHead) : ContentStore → ObjectId → Prop
  | state {id : ObjectId} (h : inventory.Past blake3 projectId head id) :
      InventoryUses blake3 inventory projectId head .inventoryState id
  | setRoot : InventoryUses blake3 inventory projectId head .inventorySetRoot head.state.setRoot
  | setLeaf {setRoot : SetRoot} {id : ObjectId}
      (hroot : inventory.loadStateRoot blake3 projectId head.state = .ok setRoot)
      (h : HasLeaf setRoot id) : InventoryUses blake3 inventory projectId head .inventorySetLeaf id

/-- A file of one of the inventory's stores that the current state does not use. -/
def UnusedNode (blake3 : Bytes → Digest32) (files : RepositoryFiles) (inventory : InventoryStore)
    (projectId : ProjectId) (head : InventoryHead) (candidate : Path × Nat) : Prop :=
  ∃ store ∈ [ContentStore.inventoryState, .inventorySetRoot, .inventorySetLeaf], ∃ id content,
    candidate = (store.filePath id, content.length) ∧
    files.entry (store.filePath id) = some (.file content) ∧
    ¬ InventoryUses blake3 inventory projectId head store id

/-- The candidates among the inventory's files are those that are not used. -/
theorem mem_inventoryGcCandidates {candidates : List (Path × Nat)}
    (h : files.inventoryGcCandidates blake3 root projectId = .ok candidates) :
    ∃ head, (files.inventoryStore root).inventoryHead blake3 projectId = .ok head ∧
      ∀ candidate, candidate ∈ candidates ↔
        UnusedNode blake3 files (files.inventoryStore root) projectId head candidate := by
  simp only [RepositoryFiles.inventoryGcCandidates, except_bind_eq_ok, except_pure_eq_ok] at h
  rcases h with ⟨head, hhead, setRoot, hroot, states, hstates, reachable, hreachable, listed,
    hlisted, rfl⟩
  refine ⟨head, hhead, fun candidate => ?_⟩
  rw [List.mem_mergeSort]
  simp only [List.foldlM_cons, List.foldlM_nil, except_bind_eq_ok, except_pure_eq_ok] at hlisted
  rcases hlisted with ⟨first, hfirst, second, hsecond, third, hthird, rfl⟩
  rw [mem_visitInventoryStore hthird, mem_visitInventoryStore hsecond,
    mem_visitInventoryStore hfirst]
  have hmem : ∀ path, path ∈ reachable ↔ (path = inventorySetRootPath head.state.setRoot ∨
      ∃ id, (files.inventoryStore root).Past blake3 projectId head id ∧
        path = inventoryStatePath id) ∨
      ∃ reference, some reference ∈ setRoot.leaves ∧ path = inventorySetLeafPath reference.id := by
    intro path
    rw [mem_foldlM_reachableLeaf hreachable, Finset.mem_insert,
      mem_reachableStates (loadState_of_inventoryHead hhead) hstates]
    simp
  have huses : ∀ store ∈ [ContentStore.inventoryState, .inventorySetRoot, .inventorySetLeaf],
      ∀ id, store.filePath id ∈ reachable ↔
        InventoryUses blake3 (files.inventoryStore root) projectId head store id := by
    intro store hstore id
    rw [hmem]
    constructor
    · rintro ((hpath | ⟨other, hpast, hpath⟩) | ⟨reference, hreference, hpath⟩)
      · obtain ⟨rfl, rfl⟩ := ContentStore.filePath_eq hpath
        exact .setRoot
      · obtain ⟨rfl, rfl⟩ := ContentStore.filePath_eq hpath
        exact .state hpast
      · obtain ⟨rfl, rfl⟩ := ContentStore.filePath_eq hpath
        exact .setLeaf hroot ⟨reference, hreference, rfl⟩
    · intro hused
      cases hused with
      | state hpast => exact .inl (.inr ⟨id, hpast, rfl⟩)
      | setRoot => exact .inl (.inl rfl)
      | setLeaf hother hleaf =>
          obtain rfl := Except.ok.inj (hroot.symm.trans hother)
          rcases hleaf with ⟨reference, hreference, rfl⟩
          exact .inr ⟨reference, hreference, rfl⟩
  have hunreachable : ∀ store ∈ [ContentStore.inventoryState, .inventorySetRoot,
      .inventorySetLeaf], Unreachable files store reachable candidate ↔ ∃ id content,
        candidate = (store.filePath id, content.length) ∧
        files.entry (store.filePath id) = some (.file content) ∧
        ¬ InventoryUses blake3 (files.inventoryStore root) projectId head store id := by
    intro store hstore
    constructor
    · rintro ⟨hnot, id, content, hpath, hfile, hlength⟩
      rw [hpath] at hnot hfile
      exact ⟨id, content, Prod.ext hpath hlength, hfile, fun hused =>
        hnot ((huses store hstore id).mpr hused)⟩
    · rintro ⟨id, content, rfl, hfile, hnot⟩
      exact ⟨fun hin => hnot ((huses store hstore id).mp hin), id, content, rfl, hfile, rfl⟩
  simp only [UnusedNode, List.exists_mem_cons_iff, List.not_mem_nil, false_and, exists_false,
    or_false, false_or, or_assoc]
  rw [hunreachable _ (by decide), hunreachable _ (by decide), hunreachable _ (by decide)]

end Files

end Hash

end CheckPo
