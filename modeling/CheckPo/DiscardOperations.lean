/-
The operations of a discard in terms of the checkpoint and of the tree as it stands.
-/
import CheckPo.PlanTopology

namespace CheckPo

section Now

variable (canonicalUtc : Timestamp → String) (blake3 : Bytes → Digest32) (tree : WorkingTree)

/-- The state of the file that stands at a path. -/
def stateNow (path : TrackedUnityFilePath) : Option CurrentFileState :=
  (tree.files.file path.segments).map (WorkingTree.fileState canonicalUtc blake3)

/-- What a discard of a path would do. -/
def changeNow (snapshot : SnapshotFile) (path : TrackedUnityFilePath) : Option FileOperation :=
  fileOperation path (snapshot.fileAt path) (stateNow canonicalUtc blake3 tree path)

end Now

section Exact

variable {canonicalUtc : Timestamp → String} {blake3 : Bytes → Digest32} {tree : WorkingTree}
  {snapshot : SnapshotFile} {expanded : Finset TrackedUnityFilePath}
  {path : TrackedUnityFilePath}

variable (hexact : tree.ExactNames)
include hexact

theorem stateNow_of_lookup_file {file : ProjectFile}
    (h : tree.lookup path.segments = some (.file file)) :
    stateNow canonicalUtc blake3 tree path =
      some (WorkingTree.fileState canonicalUtc blake3 file) := by
  rw [hexact] at h
  rw [stateNow, FileTree.file_eq_some.mpr h]
  rfl

theorem stateNow_of_not_file
    (h : ∀ file, tree.lookup path.segments ≠ some (.file file)) :
    stateNow canonicalUtc blake3 tree path = none := by
  rw [stateNow, Option.map_eq_none_iff, Option.eq_none_iff_forall_ne_some]
  intro file hfile
  rw [FileTree.file_eq_some, ← hexact] at hfile
  exact h file hfile

theorem lookup_of_stateNow {state : CurrentFileState}
    (h : stateNow canonicalUtc blake3 tree path = some state) :
    ∃ file, tree.lookup path.segments = some (.file file) ∧
      state = WorkingTree.fileState canonicalUtc blake3 file := by
  rw [stateNow, Option.map_eq_some_iff] at h
  rcases h with ⟨file, hfile, rfl⟩
  rw [FileTree.file_eq_some, ← hexact] at hfile
  exact ⟨file, hfile, rfl⟩

/-- Only a file has a state. -/
theorem stateNow_of_stands {kind : CurrentPathKind} (h : tree.Stands path.segments kind)
    (hkind : kind ≠ .file) : stateNow canonicalUtc blake3 tree path = none := by
  apply stateNow_of_not_file hexact
  intro file hfile
  cases kind with
  | file => exact hkind rfl
  | directory => exact nomatch hfile.symm.trans h
  | missing =>
      rcases h with ⟨base, name, rest, hpath, -, hname⟩
      have hgone : tree.lookup path.segments = none := by
        rcases rest with _ | ⟨next, others⟩
        · rw [hpath, hname]
        · rw [hpath, show base ++ name :: next :: others = (base ++ [name]) ++ next :: others by simp]
          apply WorkingTree.not_below_of_ne_directory (List.cons_ne_nil _ _)
          rw [hname]
          exact nofun
      rw [hgone] at hfile
      cases hfile
  | blockedByFile blocker =>
      rcases h with ⟨rest, hrest, hpath, blocking, hblocking⟩
      rw [hpath, WorkingTree.not_below_of_ne_directory hrest] at hfile
      · cases hfile
      · rw [hblocking]
        exact nofun

/-- The state that a discard reads is that of the file that stands there. -/
theorem currentFileStateForDiscard_eq_ok {existsInSnapshot : Bool}
    {current : Option CurrentFileState}
    (h : currentFileStateForDiscard canonicalUtc blake3 tree path existsInSnapshot expanded =
      .ok current) :
    (∃ kind, tree.currentPathKind path = .ok kind) ∧
      current = stateNow canonicalUtc blake3 tree path := by
  rw [currentFileStateForDiscard, except_bind_eq_ok] at h
  rcases h with ⟨kind, hkind, h⟩
  have hstands := WorkingTree.stands_of_currentPathKind hkind
  refine ⟨⟨kind, hkind⟩, ?_⟩
  cases kind with
  | missing =>
      rw [except_pure_eq_ok] at h
      rw [← h, stateNow_of_stands hexact hstands nofun]
  | blockedByFile blocker =>
      rw [except_ensure_eq_ok, except_pure_eq_ok] at h
      rw [← h.2, stateNow_of_stands hexact hstands nofun]
  | directory =>
      rw [except_ensure_eq_ok, except_pure_eq_ok] at h
      rw [← h.2, stateNow_of_stands hexact hstands nofun]
  | file =>
      rcases hstands with ⟨file, hfile⟩
      simp only [WorkingTree.currentFileState, except_bind_eq_ok,
        WorkingTree.symlinkMetadata_entry hfile, WorkingTree.currentFileStateFromAnchor,
        WorkingTree.openFile_entry hfile, except_pure_eq_ok, Except.ok.injEq] at h
      rcases h with ⟨-, -, state, ⟨opened, rfl, rfl⟩, rfl⟩
      exact (stateNow_of_lookup_file hexact hfile).symm

theorem discardOperations_eq_ok {operations : List FileOperation}
    (h : discardOperations canonicalUtc blake3 tree snapshot expanded = .ok operations) :
    (∀ path ∈ expanded, ∃ kind, tree.currentPathKind path = .ok kind) ∧
      operations = (expanded.sort (· ≤ ·)).filterMap (changeNow canonicalUtc blake3 tree snapshot) := by
  rw [discardOperations, except_bind_eq_ok] at h
  rcases h with ⟨found, hfound, h⟩
  rw [except_pure_eq_ok] at h
  have hall := mapM_eq_ok_iff.mp hfound
  have heach : ∀ path result, (do
      let file := snapshot.fileAt path
      let current ← currentFileStateForDiscard canonicalUtc blake3 tree path file.isSome expanded
      return fileOperation path file current) = .ok result →
      (∃ kind, tree.currentPathKind path = .ok kind) ∧
        result = changeNow canonicalUtc blake3 tree snapshot path := by
    intro path result hresult
    simp only [except_bind_eq_ok, except_pure_eq_ok] at hresult
    rcases hresult with ⟨current, hcurrent, rfl⟩
    rcases currentFileStateForDiscard_eq_ok hexact hcurrent with ⟨hkind, rfl⟩
    exact ⟨hkind, rfl⟩
  constructor
  · intro path hpath
    rcases List.forall₂_iff_get.mp hall with ⟨hlength, hget⟩
    rcases List.mem_iff_get.mp ((Finset.mem_sort (· ≤ ·)).mpr hpath) with ⟨index, hindex⟩
    have hresult := hget index index.isLt (hlength ▸ index.isLt)
    exact (heach path _ (hindex ▸ hresult)).1
  · have hmap : found = (expanded.sort (· ≤ ·)).map (changeNow canonicalUtc blake3 tree snapshot) := by
      symm
      rw [← List.forall₂_eq_eq_eq, List.forall₂_map_left_iff]
      exact hall.imp fun path result hresult => (heach path result hresult).2.symm
    rw [← h, hmap, List.reduceOption, List.filterMap_map]
    rfl

end Exact

end CheckPo
