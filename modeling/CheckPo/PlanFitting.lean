/-
A plan that was built for a project and passes its checks there fits the project: its
operations say what the files are, and whatever stands in a directory that goes is planned to go.
-/
import CheckPo.DiscardExpansion
import CheckPo.PlanTopology
import CheckPo.RescueRecord
import CheckPo.TransactionSteps

namespace CheckPo

/-! Plans that were built. -/

section Built

variable {canonicalUtc : Timestamp → String} {blake3 : Bytes → Digest32} {tree : WorkingTree}
  {load : SnapshotId → CheckPoResult SnapshotFile} {scan : ProjectScan}
  {authorizationOf : OperationPlan → CheckPoResult String} {checkpointId : SnapshotId}
  {kind : OperationPlanKind} {selected : Option (List TrackedUnityFilePath)}
  {snapshot : SnapshotFile} {operations : List FileOperation} {operation : FileOperation}

/-- An operation was worked out from a file of a checkpoint and one of a project. -/
def FileOperation.WorkedOut (operation : FileOperation) : Prop :=
  ∃ file current, fileOperation operation.path file current = some operation

theorem workedOut_of_fileOperation {path : TrackedUnityFilePath} {file : Option SnapshotEntry}
    {current : Option CurrentFileState} (h : fileOperation path file current = some operation) :
    operation.WorkedOut :=
  ⟨file, current, by rw [(fileOperation_fields h).1]; exact h⟩

theorem workedOut_of_restoreOperations
    {working : List (TrackedUnityFilePath × CurrentFileState)}
    (h : operation ∈ restoreOperations snapshot working) : operation.WorkedOut := by
  rcases List.mem_append.mp h with hmem | hmem
  · rcases List.mem_filterMap.mp hmem with ⟨file, -, hfile⟩
    exact workedOut_of_fileOperation hfile
  · rcases List.mem_filterMap.mp hmem with ⟨path, -, hpath⟩
    split at hpath
    · cases hpath
    · exact workedOut_of_fileOperation hpath

theorem workedOut_of_discardOperations {paths : Finset TrackedUnityFilePath}
    (h : discardOperations canonicalUtc blake3 tree snapshot paths = .ok operations)
    (hmem : operation ∈ operations) : operation.WorkedOut := by
  simp only [discardOperations, except_bind_eq_ok, except_pure_eq_ok] at h
  rcases h with ⟨found, hfound, rfl⟩
  rw [List.reduceOption_mem_iff] at hmem
  rw [mapM_eq_ok_iff] at hfound
  rcases List.mem_iff_getElem.mp hmem with ⟨index, hindex, heq⟩
  have hboth := hfound.get (by rw [hfound.length_eq]; exact hindex) hindex
  simp only [List.get_eq_getElem, heq, except_bind_eq_ok, except_pure_eq_ok] at hboth
  rcases hboth with ⟨current, -, hboth⟩
  exact workedOut_of_fileOperation hboth

/-- What there is to know of the operations of a plan that was built, and of its directories. -/
theorem workedOut_of_buildPlan {plan : OperationPlan}
    (h : buildPlan canonicalUtc blake3 tree load scan authorizationOf checkpointId kind selected =
      .ok plan) :
    ∃ operations, plan.operations = sortOperations operations ∧
      (∀ operation ∈ operations, operation.WorkedOut) ∧
      planDirectoryTopologyChanges tree operations =
        .ok (plan.directoriesToRemove, plan.directoriesToCreate) := by
  rw [buildPlan, except_bind_eq_ok] at h
  rcases h with ⟨unsigned, hunsigned, h⟩
  simp only [except_bind_eq_ok, except_pure_eq_ok] at h
  rcases h with ⟨authorization, -, rfl⟩
  rw [buildUnsignedPlan, except_bind_eq_ok] at hunsigned
  rcases hunsigned with ⟨snapshot, -, hunsigned⟩
  cases kind with
  | restore =>
      simp only [except_bind_eq_ok, except_pure_eq_ok] at hunsigned
      rcases hunsigned with ⟨⟨working, warnings⟩, -, ⟨remove, create⟩, htopology, rfl⟩
      rcases sortDedup_changes htopology with ⟨hremove, hcreate⟩
      refine ⟨restoreOperations snapshot working, rfl,
        fun operation hmem => workedOut_of_restoreOperations hmem, ?_⟩
      change planDirectoryTopologyChanges tree _ =
        .ok (sortDedup _ remove, sortDedup _ create)
      rw [hremove, hcreate]
      exact htopology
  | discard =>
      simp only [except_bind_eq_ok, except_pure_eq_ok] at hunsigned
      rcases hunsigned with ⟨effective, -, normalized, -, operations, hoperations,
        ⟨remove, create⟩, htopology, rfl⟩
      rcases sortDedup_changes htopology with ⟨hremove, hcreate⟩
      refine ⟨operations, rfl,
        fun operation hmem => workedOut_of_discardOperations hoperations hmem, ?_⟩
      change planDirectoryTopologyChanges tree _ =
        .ok (sortDedup _ remove, sortDedup _ create)
      rw [hremove, hcreate]
      exact htopology

end Built

/-! What a lookup through links says. -/

namespace WorkingTree

variable {tree : WorkingTree}

/-- What a lookup finds stands at the path, or beyond a link. -/
theorem lookup_or_link_of_symlinkMetadata {path : Path} {entry : TreeEntry ProjectFile}
    (h : tree.symlinkMetadata path = .ok entry) :
    tree.lookup path = some entry ∨
      ∃ top, top <+: path ∧ top ≠ path ∧ tree.lookup top = some .link :=
  (lookup_or_link_of_resolveFrom path [] h).imp_right And.left

theorem lookup_of_symlinkMetadata_error {path : Path} {error : LookupError}
    (h : tree.symlinkMetadata path = .error error) : tree.lookup path = none := by
  rcases hentry : tree.lookup path with _ | entry
  · rfl
  · rw [symlinkMetadata_entry hentry] at h
    cases h

/-- Nothing stands below a link. -/
theorem lookup_below_link {path top : Path} (hstarts : top <+: path) (hne : top ≠ path)
    (hlink : tree.lookup top = some .link) : tree.lookup path = none := by
  rcases hstarts with ⟨rest, rfl⟩
  apply not_below_of_ne_directory
  · rintro rfl
    exact hne (List.append_nil top).symm
  · rw [hlink]
    simp

end WorkingTree

/-! The directories that go. -/

section Topology

variable {tree : WorkingTree} {operations : List FileOperation}
  {remove create : List TrackedUnityFilePath} {directory : TrackedUnityFilePath}

/-- Where a directory is in the place of a file, everything in it goes or is deleted. -/
theorem covered_of_blocking {deleted dirs : Finset TrackedUnityFilePath}
    {path : TrackedUnityFilePath} {entry : Path} {value : TreeEntry ProjectFile}
    (hexact : tree.ExactNames) (h : blockingDirectories tree deleted path = .ok dirs)
    (hpath : tree.symlinkMetadata path.segments = .ok .directory)
    (hstarts : path.segments <+: entry) (hentry : tree.lookup entry = some value) :
    (∃ other ∈ dirs, other.segments = entry) ∨ ∃ file ∈ deleted, file.segments = entry := by
  by_cases hself : entry = path.segments
  · exact Or.inl ⟨path, mem_blocking h hpath, hself.symm⟩
  have hwalk : entry ∈ tree.files.walk path.segments := by
    refine FileTree.mem_walk.mpr (FileTree.mem_below.mpr ⟨?_, hstarts, hself⟩)
    rw [← congrFun hexact entry, hentry]
    exact Option.some_ne_none _
  rw [blockingDirectories, hpath] at h
  rcases gatherInto_eq_ok.mp h with ⟨hparts, hmem⟩
  rcases hparts entry (List.mem_cons_of_mem _ hwalk) with ⟨part, hpart⟩
  have hfound := hpart
  rw [WorkingTree.symlinkMetadata_entry hentry] at hfound
  rcases value with file | _ | _ | _
  · simp only [except_bind_eq_ok] at hfound
    rcases hfound with ⟨tracked, htracked, hfound⟩
    rw [except_guard_eq_ok, not_not] at hfound
    exact Or.inr ⟨tracked, hfound.1, segments_of_mem_walk hwalk htracked⟩
  · simp only [except_bind_eq_ok, except_pure_eq_ok] at hfound
    rcases hfound with ⟨tracked, htracked, rfl⟩
    refine Or.inl ⟨tracked, (hmem tracked).mpr (Or.inr ⟨entry, List.mem_cons_of_mem _ hwalk,
      {tracked}, hpart, Finset.mem_singleton_self tracked⟩), segments_of_mem_walk hwalk htracked⟩
  · cases hfound
  · cases hfound

/-- Everything in a directory that goes is planned to go. -/
theorem covered_of_plan {entry : Path} {value : TreeEntry ProjectFile} (hexact : tree.ExactNames)
    (h : planDirectoryTopologyChanges tree operations = .ok (remove, create))
    (hdirectory : directory ∈ remove) (hstarts : directory.segments <+: entry)
    (hentry : tree.lookup entry = some value) :
    (∃ other ∈ remove, other.segments = entry) ∨
      ∃ operation ∈ operations, operation.operationType = .delete ∧
        operation.path.segments = entry := by
  rcases (mem_remove_iff h).mp hdirectory with ⟨path, hpath, dirs, hdirs, hin⟩
  rcases directory_of_blocking hdirs hin with ⟨hfound, hbelow⟩
  have hup : path.segments <+: directory.segments := by
    rw [TrackedUnityFilePath.isSameOrDescendant, Bool.or_eq_true] at hbelow
    rcases hbelow with heq | hstrict
    · rw [beq_iff_eq.mp heq]
    · rcases TrackedUnityFilePath.isStrictDescendant_iff.mp hstrict with ⟨rest, -, hrest⟩
      exact ⟨rest, hrest.symm⟩
  have habove := hup.trans hstarts
  have hpathFound : tree.symlinkMetadata path.segments = .ok .directory := by
    by_cases hself : path.segments = entry
    · have hsame : path.segments = directory.segments :=
        hup.eq_of_length (le_antisymm hup.length_le (by rw [hself]; exact hstarts.length_le))
      rwa [hsame]
    · rcases habove with ⟨rest, rfl⟩
      have hrest : rest ≠ [] := by
        rintro rfl
        exact hself (List.append_nil _).symm
      exact WorkingTree.symlinkMetadata_entry
        (WorkingTree.directory_above hrest (by rw [hentry]; exact Option.some_ne_none _))
  rcases covered_of_blocking hexact hdirs hpathFound habove hentry with
    ⟨other, hother, heq⟩ | ⟨file, hfile, heq⟩
  · exact Or.inl ⟨other, (mem_remove_iff h).mpr ⟨path, hpath, dirs, hdirs, hother⟩, heq⟩
  · rw [deletedFiles, List.mem_toFinset, List.mem_map] at hfile
    rcases hfile with ⟨operation, hoperation, rfl⟩
    rw [List.mem_filter, beq_iff_eq] at hoperation
    exact Or.inr ⟨operation, hoperation.1, hoperation.2, heq⟩

end Topology

/-! The checks before a plan is applied. -/

section Checked

variable {canonicalUtc : Timestamp → String} {blake3 : Bytes → Digest32} {tree : WorkingTree}
  {plan : OperationPlan} {operation : FileOperation}

/-- The file of an operation, or nothing, or a directory that goes. -/
theorem recheckedState_eq_ok {current : Option CurrentFileState}
    (h : recheckedState canonicalUtc blake3 tree plan operation = .ok current) :
    (∃ file, tree.lookup operation.path.segments = some (.file file) ∧
      current = some (WorkingTree.fileState canonicalUtc blake3 file)) ∨
    current = none ∧ (tree.lookup operation.path.segments = none ∨
      tree.lookup operation.path.segments = some .directory ∧
        operation.path ∈ plan.directoriesToRemove) := by
  rw [recheckedState] at h
  split at h
  · simp only [except_bind_eq_ok, except_pure_eq_ok, WorkingTree.currentFileStateFromAnchor] at h
    rcases h with ⟨state, ⟨file, hopen, rfl⟩, rfl⟩
    exact Or.inl ⟨file, WorkingTree.lookup_of_openFile hopen, rfl⟩
  · next hfound =>
      rw [except_ensure_eq_ok, Except.ok.injEq] at h
      rcases h with ⟨⟨-, hremoved⟩, rfl⟩
      refine Or.inr ⟨rfl, ?_⟩
      rcases WorkingTree.lookup_or_link_of_symlinkMetadata hfound with hentry |
        ⟨top, hstarts, hne, hlink⟩
      · exact Or.inr ⟨hentry, hremoved⟩
      · exact Or.inl (WorkingTree.lookup_below_link hstarts hne hlink)
  · cases h
  · next hmissing =>
      exact Or.inr ⟨(Except.ok.inj h).symm, Or.inl (WorkingTree.lookup_of_symlinkMetadata_error hmissing)⟩
  · next hmissing =>
      rw [except_ensure_eq_ok, Except.ok.injEq] at h
      exact Or.inr ⟨h.2.symm, Or.inl (WorkingTree.lookup_of_symlinkMetadata_error hmissing)⟩

theorem recheckOperation_eq_ok (h : recheckOperation canonicalUtc blake3 tree plan operation = .ok ()) :
    ∃ current, recheckedState canonicalUtc blake3 tree plan operation = .ok current ∧
      current.map CurrentFileState.hash = operation.beforeHash ∧
      current.map CurrentFileState.sizeBytes = operation.beforeSizeBytes ∧
      current.map CurrentFileState.modifiedAtUtc = operation.beforeModifiedAtUtc := by
  have hcheck : ∀ {result : CheckPoResult (Option CurrentFileState)},
      (do
        let current ← result
        if current.map CurrentFileState.hash ≠ operation.beforeHash ∨
            current.map CurrentFileState.sizeBytes ≠ operation.beforeSizeBytes ∨
            current.map CurrentFileState.modifiedAtUtc ≠ operation.beforeModifiedAtUtc then
          .error (.workingTreeChanged operation.path.text)
        else return () : CheckPoResult Unit) = .ok () →
      ∃ current, result = .ok current ∧
        current.map CurrentFileState.hash = operation.beforeHash ∧
        current.map CurrentFileState.sizeBytes = operation.beforeSizeBytes ∧
        current.map CurrentFileState.modifiedAtUtc = operation.beforeModifiedAtUtc := by
    intro result hresult
    simp only [except_bind_eq_ok, except_guard_eq_ok, not_or, not_not] at hresult
    rcases hresult with ⟨current, hcurrent, hsame, -⟩
    exact ⟨current, hcurrent, hsame⟩
  rw [recheckOperation] at h
  split at h
  · rw [except_bind_eq_ok] at h
    rcases h with ⟨_, _, h⟩
    exact hcheck h
  · exact hcheck h

/-- A time that changes alone leaves the size. -/
theorem sizes_of_validateJournalOperation {snapshot : SnapshotFile}
    (h : validateJournalOperation snapshot operation = .ok ())
    (htype : operation.operationType = .setMetadata) :
    operation.afterSizeBytes = operation.beforeSizeBytes := by
  simp only [validateJournalOperation, htype, except_bind_eq_ok, except_guard_eq_ok,
    Bool.or_eq_true, Bool.not_eq_true', not_or, bne_iff_ne, not_not, Bool.not_eq_false,
    Bool.and_eq_true, beq_iff_eq] at h
  rcases h with ⟨file, -, ⟨⟨⟨⟨-, hbefore⟩, ⟨-, hafter⟩, -⟩, -⟩, -⟩⟩
  rw [hbefore, hafter]

end Checked

section Fits

variable {context : TransactionContext} {plan : OperationPlan} {before : ProjectFiles}
  {scan : ProjectScan} {authorizationOf : OperationPlan → CheckPoResult String}
  {checkpointId : SnapshotId} {kind : OperationPlanKind}
  {selected : Option (List TrackedUnityFilePath)}

/-- The project as its readers see it. -/
abbrev ProjectFiles.seenBy (context : TransactionContext) (files : ProjectFiles) : WorkingTree :=
  files.workingTree context.projectRoot context.beyondLink

theorem planFits_of_checks
    (hbuilt : buildPlan context.canonicalUtc context.blake3 (before.seenBy context) context.load
      scan authorizationOf checkpointId kind selected = .ok plan)
    (hown : ∀ operation ∈ plan.operations, ¬ ToolPath operation.path.segments)
    (hvalid : validateJournalOperations context.load plan.checkpointId plan.operations = .ok ())
    (hrecheck : recheckPreconditions context.canonicalUtc context.blake3 (before.seenBy context)
      plan = .ok ()) : PlanFits context plan before := by
  rcases workedOut_of_buildPlan hbuilt with ⟨operations, hoperations, hmade, htopology⟩
  have hmem : ∀ {operation : FileOperation}, operation ∈ plan.operations ↔
      operation ∈ operations := by
    intro operation
    rw [hoperations, sortOperations, List.mem_mergeSort]
  simp only [recheckPreconditions, except_bind_eq_ok, forM_eq_ok_iff] at hrecheck
  rcases hrecheck with ⟨-, hcurrent, -, hremoved, hcreated⟩
  have hfound : ∀ operation ∈ plan.operations, ∃ current,
      recheckedState context.canonicalUtc context.blake3 (before.seenBy context) plan operation =
        .ok current ∧
      current.map CurrentFileState.hash = operation.beforeHash ∧
      current.map CurrentFileState.sizeBytes = operation.beforeSizeBytes ∧
      current.map CurrentFileState.modifiedAtUtc = operation.beforeModifiedAtUtc :=
    fun operation hoperation => recheckOperation_eq_ok (hcurrent operation hoperation)
  constructor
  · exact fun operation hoperation => hmade operation (hmem.mp hoperation)
  · exact paths_nodup_of_valid hvalid
  · exact hown
  · intro operation hoperation hbefore
    rcases hfound operation hoperation with ⟨current, hstate, hhash, hsize, htime⟩
    rcases recheckedState_eq_ok hstate with ⟨file, hfile, rfl⟩ | ⟨rfl, -⟩
    · exact ⟨file, hfile, hhash.symm, hsize.symm, htime.symm⟩
    · exact absurd hhash.symm hbefore
  · intro operation hoperation hbefore
    rcases hfound operation hoperation with ⟨current, hstate, hhash, -⟩
    rcases recheckedState_eq_ok hstate with ⟨file, -, rfl⟩ | ⟨-, hfree⟩
    · rw [hbefore] at hhash
      cases hhash
    · exact hfree
  · intro operation hoperation htype
    simp only [validateJournalOperations, except_guard_eq_ok, except_bind_eq_ok,
      forM_eq_ok_iff] at hvalid
    rcases hvalid with ⟨-, -, snapshot, -, hvalid⟩
    exact sizes_of_validateJournalOperation (hvalid operation hoperation) htype
  · intro directory hdirectory
    have hcheck := hremoved directory hdirectory
    rw [recheckRemovedDirectory] at hcheck
    split at hcheck
    · next hmetadata => exact WorkingTree.lookup_or_link_of_symlinkMetadata hmetadata
    · cases hcheck
    · cases hcheck
  · intro directory hdirectory path hstarts hentry
    rcases Option.ne_none_iff_exists'.mp hentry with ⟨value, hvalue⟩
    have hexact : (before.seenBy context).ExactNames := rfl
    rcases covered_of_plan hexact htopology hdirectory hstarts hvalue with hother |
      ⟨operation, hoperation, htype, hpath⟩
    · exact Or.inl hother
    · refine Or.inr ⟨operation, hmem.mpr hoperation, ?_, hpath⟩
      rw [FileOperation.isBackedUp, htype]
      rfl
  · intro directory hdirectory hentry
    have hcheck := hcreated directory hdirectory
    rw [recheckCreatedDirectory, @WorkingTree.symlinkMetadata_entry (before.seenBy context) _ .directory hentry]
      at hcheck
    cases hcheck

end Fits

end CheckPo
