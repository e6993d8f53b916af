/-
A built discard plan, and the paths that its requested paths authorize.
-/
import CheckPo.DiscardOperations

namespace CheckPo

/-- The operations on the paths that a discard takes. -/
def operationsNow (canonicalUtc : Timestamp → String) (blake3 : Bytes → Digest32)
    (tree : WorkingTree) (snapshot : SnapshotFile) (expanded : Finset TrackedUnityFilePath) :
    List FileOperation :=
  (expanded.sort (· ≤ ·)).filterMap (changeNow canonicalUtc blake3 tree snapshot)

theorem mem_operationsNow {canonicalUtc : Timestamp → String} {blake3 : Bytes → Digest32}
    {tree : WorkingTree} {snapshot : SnapshotFile} {expanded : Finset TrackedUnityFilePath}
    {operation : FileOperation} :
    operation ∈ operationsNow canonicalUtc blake3 tree snapshot expanded ↔
      ∃ path ∈ expanded, changeNow canonicalUtc blake3 tree snapshot path = some operation := by
  rw [operationsNow, List.mem_filterMap]
  simp only [Finset.mem_sort]

/-- The paths that the requested paths of a discard authorize: what they contain, and the
companions and the blocking files of what is authorized. -/
inductive Covered (tree : WorkingTree) (snapshotPaths : Finset TrackedUnityFilePath)
    (requested : List TrackedUnityFilePath) : TrackedUnityFilePath → Prop
  | root {path root} : Expanded tree snapshotPaths requested path → root ∈ requested →
      path.isSameOrDescendant root = true → Covered tree snapshotPaths requested path
  | companion {path companion} : Covered tree snapshotPaths requested path →
      unityAssetCompanionPath path = some companion →
      Expanded tree snapshotPaths requested companion →
      Covered tree snapshotPaths requested companion
  | blocker {path blocker} : Covered tree snapshotPaths requested path →
      path ∈ snapshotPaths → tree.currentPathKind path = .ok (.blockedByFile blocker) →
      blocker ∉ snapshotPaths → Covered tree snapshotPaths requested blocker

theorem Covered.expanded {tree : WorkingTree} {snapshotPaths : Finset TrackedUnityFilePath}
    {requested : List TrackedUnityFilePath} {path : TrackedUnityFilePath}
    (h : Covered tree snapshotPaths requested path) :
    Expanded tree snapshotPaths requested path := by
  induction h with
  | root hexpanded _ _ => exact hexpanded
  | companion _ _ hexpanded _ => exact hexpanded
  | blocker _ hsnapshot hkind _ ih =>
      apply ih.topology hsnapshot ?_ (Finset.mem_singleton_self _)
      rw [requiredDiscardTopologyPaths, hkind]
      rfl

theorem mem_authorizedCompanions {selected authorized : Finset TrackedUnityFilePath}
    {path companion : TrackedUnityFilePath}
    (h : authorizedCompanions selected authorized = authorized) (hpath : path ∈ authorized)
    (hcompanion : unityAssetCompanionPath path = some companion) (hselected : companion ∈ selected) :
    companion ∈ authorized := by
  apply mem_of_insertWhere_eq h
  · exact List.mem_filterMap.mpr ⟨path, (Finset.mem_sort _).mpr hpath, hcompanion⟩
  · exact decide_eq_true hselected

theorem authorizationRound_bounds {plan : OperationPlan}
    {selected authorized : Finset TrackedUnityFilePath} (h : authorized ⊆ selected) :
    authorized ⊆ authorizedCompanions selected authorized ∧
      authorizedCompanions selected authorized ⊆ authorizationRound plan selected authorized ∧
      authorizationRound plan selected authorized ⊆ selected := by
  have hcompanions : ∀ path ∈ authorizedCompanions selected authorized, path ∈ selected := by
    apply insertWhere_forall
    · intro current _ candidate _ htest
      exact of_decide_eq_true htest
    · exact h
  refine ⟨subset_insertWhere _ _, subset_insertWhere _ _, ?_⟩
  apply insertWhere_forall
  · intro current _ candidate hcandidate _
    exact (Finset.mem_sdiff.mp ((Finset.mem_sort _).mp hcandidate)).1
  · exact hcompanions

/-- What there is to know of a plan that was built. -/
structure DiscardBuilt (canonicalUtc : Timestamp → String) (blake3 : Bytes → Digest32)
    (tree : WorkingTree) (authorizationOf : OperationPlan → CheckPoResult String)
    (snapshot : SnapshotFile) (requested : List TrackedUnityFilePath) (plan : OperationPlan) where
  checkpointId : SnapshotId
  expanded : Finset TrackedUnityFilePath
  remove : List TrackedUnityFilePath
  create : List TrackedUnityFilePath
  rejected : rejectSelectedDirectoryMeta tree requested = .ok ()
  settled : settle (discardRound tree snapshot.pathSet)
    (discardRounds tree snapshot.pathSet requested) requested.toFinset = .ok expanded
  reachable : ∀ path ∈ expanded, ∃ kind, tree.currentPathKind path = .ok kind
  topology : planDirectoryTopologyChanges tree
    (operationsNow canonicalUtc blake3 tree snapshot expanded) = .ok (remove, create)
  authorized : operationPlanAuthorization authorizationOf plan = .ok plan.authorization
  planned : plan = { (((OperationPlan.new checkpointId .discard (some (expanded.sort (· ≤ ·)))
    (operationsNow canonicalUtc blake3 tree snapshot expanded)).withDirectoryChanges
      remove create).withWarnings []) with authorization := plan.authorization }

section Built

variable {canonicalUtc : Timestamp → String} {blake3 : Bytes → Digest32} {tree : WorkingTree}
  {load : SnapshotId → CheckPoResult SnapshotFile} {scan : ProjectScan}
  {authorizationOf : OperationPlan → CheckPoResult String} {checkpointId : SnapshotId}
  {snapshot : SnapshotFile} {requested : List TrackedUnityFilePath} {plan : OperationPlan}

theorem discardBuilt_of_buildPlan (hexact : tree.ExactNames)
    (hload : load checkpointId = .ok snapshot)
    (h : buildPlan canonicalUtc blake3 tree load scan authorizationOf checkpointId .discard
      (some requested) = .ok plan) :
    ∃ built : DiscardBuilt canonicalUtc blake3 tree authorizationOf snapshot requested plan,
      built.checkpointId = checkpointId := by
  simp only [buildPlan, buildUnsignedPlan, hload, except_bind_ok, orError,
    normalizeDiscardSelectionWithSnapshot, except_bind_eq_ok, except_pure_eq_ok] at h
  rcases h with ⟨unsigned, ⟨effective, ⟨_, hrejected, expanded, hsettled, rfl⟩, operations,
    hoperations, ⟨remove, create⟩, htopology, rfl⟩, authorization, hauthorization, rfl⟩
  rw [Finset.sort_toFinset] at hoperations
  rcases discardOperations_eq_ok hexact hoperations with ⟨hreachable, rfl⟩
  rw [Finset.sort_toFinset] at hauthorization ⊢
  exact ⟨⟨checkpointId, expanded, remove, create, hrejected, hsettled, hreachable, htopology,
    hauthorization, rfl⟩, rfl⟩

namespace DiscardBuilt

variable (built : DiscardBuilt canonicalUtc blake3 tree authorizationOf snapshot requested plan)

/-- The operations of the plan. -/
abbrev operations : List FileOperation :=
  operationsNow canonicalUtc blake3 tree snapshot built.expanded

include built

theorem mem_expanded (hexact : tree.ExactNames) {path : TrackedUnityFilePath} :
    path ∈ built.expanded ↔ Expanded tree snapshot.pathSet requested path :=
  mem_discardExpansion hexact built.settled

theorem requested_subset (hexact : tree.ExactNames) : requested.toFinset ⊆ built.expanded :=
  (discardExpansion_fixed hexact built.settled).2

/-- The operations come in the order of their paths, one for each path. -/
theorem operations_pairwise :
    built.operations.Pairwise fun left right => left.path < right.path := by
  rw [operations, operationsNow, List.pairwise_filterMap]
  apply (Finset.sortedLT_sort built.expanded).pairwise.imp
  intro left right hlt first hfirst second hsecond
  rw [(fileOperation_fields hfirst).1, (fileOperation_fields hsecond).1]
  exact hlt

theorem sortOperations_operations : sortOperations built.operations = built.operations := by
  apply List.mergeSort_of_pairwise
  apply built.operations_pairwise.imp
  intro left right hlt
  exact decide_eq_true hlt.le

/-! The fields of the plan. -/

theorem plan_kind : plan.kind = .discard :=
  congrArg OperationPlan.kind built.planned

theorem plan_selectedPaths : plan.selectedPaths = some (built.expanded.sort (· ≤ ·)) :=
  congrArg OperationPlan.selectedPaths built.planned

theorem plan_operations : plan.operations = built.operations :=
  (congrArg OperationPlan.operations built.planned).trans built.sortOperations_operations

theorem plan_directoriesToRemove : plan.directoriesToRemove = built.remove :=
  (congrArg OperationPlan.directoriesToRemove built.planned).trans
    (sortDedup_changes built.topology).1

theorem plan_directoriesToCreate : plan.directoriesToCreate = built.create :=
  (congrArg OperationPlan.directoriesToCreate built.planned).trans
    (sortDedup_changes built.topology).2

/-! The authorization. -/

section Authorization

variable (hexact : tree.ExactNames)
include hexact

/-- A deleted file blocks an authorized one where this is a file of the checkpoint. -/
theorem blocksAuthorizedTarget_iff {authorized : Finset TrackedUnityFilePath}
    (hauthorized : authorized ⊆ built.expanded) {candidate : TrackedUnityFilePath}
    (hcandidate : candidate ∈ built.expanded) :
    blocksAuthorizedTarget plan authorized candidate = true ↔
      candidate ∉ snapshot.pathSet ∧ ∃ path ∈ authorized, path ∈ snapshot.pathSet ∧
        tree.currentPathKind path = .ok (.blockedByFile candidate) := by
  rw [blocksAuthorizedTarget, built.plan_operations, built.plan_directoriesToCreate]
  simp only [Bool.and_eq_true, List.any_eq_true, beq_iff_eq, List.contains_iff_mem,
    decide_eq_true_eq, mem_operationsNow]
  constructor
  · rintro ⟨⟨⟨deletion, ⟨path, -, hdeletion⟩, hpath, htype⟩, -⟩, restored,
      ⟨target, htarget, hrestored⟩, ⟨hin, hstaged⟩, hbelow⟩
    rw [(fileOperation_fields hdeletion).1] at hpath
    subst hpath
    rw [(fileOperation_fields hrestored).1] at hin hbelow
    have hdeleted : (snapshot.fileAt path) = none ∧
        (stateNow canonicalUtc blake3 tree path).isSome = true := by
      rcases fileOperation_type hdeletion with ⟨hother, -⟩ | ⟨hother, -⟩ | ⟨-, hstate, hfile⟩ |
        ⟨hother, -⟩
      · exact nomatch hother.symm.trans htype
      · exact nomatch hother.symm.trans htype
      · exact ⟨hfile, hstate⟩
      · exact nomatch hother.symm.trans htype
    have hwanted : target ∈ snapshot.pathSet := by
      rw [← fileAt_isSome_iff]
      rcases fileOperation_type hrestored with ⟨-, -, hfile⟩ | ⟨-, -, wanted, -, hfile, -⟩ |
        ⟨hother, -⟩ | ⟨hother, -⟩
      · exact hfile
      · rw [hfile]
        rfl
      · simp [FileOperation.isStaged, hother] at hstaged
      · simp [FileOperation.isStaged, hother] at hstaged
    rcases Option.isSome_iff_exists.mp hdeleted.2 with ⟨state, hstate⟩
    rcases lookup_of_stateNow hexact hstate with ⟨file, hfile, -⟩
    rcases built.reachable target htarget with ⟨kind, hkind⟩
    have hblocked := kind_eq_blockedByFile (WorkingTree.stands_of_currentPathKind hkind) hbelow hfile
    refine ⟨?_, target, hin, hwanted, hblocked ▸ hkind⟩
    rw [← fileAt_isSome_iff, hdeleted.1]
    exact Bool.false_ne_true
  · rintro ⟨hnew, path, hpath, hsnapshot, hkind⟩
    have hstands := WorkingTree.stands_of_currentPathKind hkind
    rcases WorkingTree.stands_of_currentPathKind hkind with ⟨rest, hrest, hsegments, file, hfile⟩
    have hbelow : path.isStrictDescendant candidate = true :=
      TrackedUnityFilePath.isStrictDescendant_iff.mpr ⟨rest, hrest, hsegments⟩
    rcases Option.isSome_iff_exists.mp (fileAt_isSome_iff.mpr hsnapshot) with ⟨wanted, hwanted⟩
    have hnone : snapshot.fileAt candidate = none := by
      rwa [← fileAt_isSome_iff, Option.isSome_iff_ne_none, not_not] at hnew
    have hdeletion : changeNow canonicalUtc blake3 tree snapshot candidate =
        fileOperation candidate none (some (WorkingTree.fileState canonicalUtc blake3 file)) := by
      rw [changeNow, hnone, stateNow_of_lookup_file hexact hfile]
    have hrestored : changeNow canonicalUtc blake3 tree snapshot path =
        fileOperation path (some wanted) none := by
      rw [changeNow, hwanted, stateNow_of_stands hexact hstands nofun]
    have hafter : path ∈ afterFiles built.operations := by
      rw [afterFiles, List.mem_map]
      refine ⟨_, List.mem_filter.mpr ⟨mem_operationsNow.mpr
        ⟨path, hauthorized hpath, hrestored⟩, rfl⟩, rfl⟩
    exact ⟨⟨⟨_, ⟨candidate, hcandidate, hdeletion⟩, rfl, rfl⟩,
      (blocker_of_plan built.topology hafter hstands).2⟩,
      _, ⟨path, hauthorized hpath, hrestored⟩, ⟨hpath, rfl⟩, hbelow⟩

/-- One round stays within what is covered. -/
theorem covered_of_authorizationRound {authorized : Finset TrackedUnityFilePath}
    (hauthorized : ∀ path ∈ authorized, Covered tree snapshot.pathSet requested path) :
    ∀ path ∈ authorizationRound plan built.expanded authorized,
      Covered tree snapshot.pathSet requested path := by
  rw [authorizationRound]
  apply insertWhere_forall
  · intro current hcurrent candidate hcandidate htest
    rw [Finset.mem_sort, Finset.mem_sdiff] at hcandidate
    have hwithin : current ⊆ built.expanded :=
      fun path hpath => (built.mem_expanded hexact).mpr (hcurrent path hpath).expanded
    rw [built.blocksAuthorizedTarget_iff hexact hwithin hcandidate.1] at htest
    rcases htest with ⟨hnew, path, hpath, hsnapshot, hkind⟩
    exact .blocker (hcurrent path hpath) hsnapshot hkind hnew
  · rw [authorizedCompanions]
    apply insertWhere_forall
    · intro current hcurrent candidate hcandidate htest
      rw [List.mem_filterMap] at hcandidate
      rcases hcandidate with ⟨path, hpath, hcompanion⟩
      rw [Finset.mem_sort] at hpath
      exact .companion (hauthorized path hpath) hcompanion
        ((built.mem_expanded hexact).mp (of_decide_eq_true htest))
    · exact hauthorized

/-- The authorized paths are those that are covered. -/
theorem mem_authorized {final : Finset TrackedUnityFilePath}
    (h : settle (fun authorized => .ok (authorizationRound plan built.expanded authorized))
      ((built.expanded.sort (· ≤ ·)).length + 1)
      (requested.toFinset ∪ built.expanded.filter fun candidate =>
        ∃ root ∈ requested.toFinset, candidate.isSameOrDescendant root = true) =
        (.ok final : CheckPoResult (Finset TrackedUnityFilePath))) {path : TrackedUnityFilePath} :
    path ∈ final ↔ Covered tree snapshot.pathSet requested path := by
  have hroots : ∀ path ∈ requested.toFinset ∪ built.expanded.filter fun candidate =>
      ∃ root ∈ requested.toFinset, candidate.isSameOrDescendant root = true,
      Covered tree snapshot.pathSet requested path := by
    intro path hpath
    rcases Finset.mem_union.mp hpath with hrequested | hbelow
    · rw [List.mem_toFinset] at hrequested
      exact .root (.requested hrequested) hrequested
        (by simp [TrackedUnityFilePath.isSameOrDescendant])
    · rcases Finset.mem_filter.mp hbelow with ⟨hexpanded, root, hroot, hsame⟩
      exact .root ((built.mem_expanded hexact).mp hexpanded) (List.mem_toFinset.mp hroot) hsame
  have hwithin : ∀ {set : Finset TrackedUnityFilePath},
      (∀ path ∈ set, Covered tree snapshot.pathSet requested path) → set ⊆ built.expanded :=
    fun hset path hpath => (built.mem_expanded hexact).mpr (hset path hpath).expanded
  have hinvariant := settle_invariant
    (P := fun set => ∀ path ∈ set, Covered tree snapshot.pathSet requested path)
    (fun current next hcurrent hnext =>
      Except.ok.inj hnext ▸ built.covered_of_authorizationRound hexact hcurrent) hroots h
  constructor
  · exact hinvariant path
  · have hstep : ∀ current next : Finset TrackedUnityFilePath, current ⊆ built.expanded →
        (.ok (authorizationRound plan built.expanded current) :
          CheckPoResult (Finset TrackedUnityFilePath)) = .ok next →
        current ⊆ next ∧ next ⊆ built.expanded := by
      intro current next hcurrent hnext
      rcases @authorizationRound_bounds plan _ _ hcurrent with ⟨hfirst, hsecond, hbound⟩
      exact Except.ok.inj hnext ▸ ⟨hfirst.trans hsecond, hbound⟩
    rcases settle_fixed hstep (hwithin hroots) (by rw [Finset.length_sort]; omega) h with
      ⟨hfixed, hstart, hbound⟩
    rw [Except.ok.injEq] at hfixed
    rcases @authorizationRound_bounds plan _ _ hbound with ⟨hfirst, hsecond, -⟩
    have hcompanions : authorizedCompanions built.expanded final = final :=
      Finset.Subset.antisymm (hsecond.trans (Finset.subset_of_eq hfixed)) hfirst
    intro hcovered
    induction hcovered with
    | root hexpanded hroot hsame =>
        apply hstart
        rw [Finset.mem_union, Finset.mem_filter]
        exact Or.inr ⟨(built.mem_expanded hexact).mpr hexpanded, _,
          List.mem_toFinset.mpr hroot, hsame⟩
    | companion _ hcompanion hexpanded ih =>
        exact mem_authorizedCompanions hcompanions ih hcompanion
          ((built.mem_expanded hexact).mpr hexpanded)
    | @blocker path blocker hcovered hsnapshot hkind hnew ih =>
        have hexpanded := (Covered.blocker hcovered hsnapshot hkind hnew).expanded
        rw [← built.mem_expanded hexact] at hexpanded
        by_contra hmissing
        rw [authorizationRound, hcompanions] at hfixed
        apply hmissing (mem_of_insertWhere_eq hfixed ?_ ?_)
        · rw [Finset.mem_sort, Finset.mem_sdiff]
          exact ⟨hexpanded, hmissing⟩
        · rw [built.blocksAuthorizedTarget_iff hexact hbound hexpanded]
          exact ⟨hnew, path, ih, hsnapshot, hkind⟩

/-- The scope of a request is confirmed exactly where all that it takes is covered. -/
theorem validateDiscardRequestScope_iff (hrequested : requested ≠ []) :
    validateDiscardRequestScope tree authorizationOf requested plan = .ok () ↔
      ∀ path, Expanded tree snapshot.pathSet requested path →
        Covered tree snapshot.pathSet requested path := by
  have hnonempty : requested.toFinset ≠ ∅ := by
    rwa [Ne, List.toFinset_eq_empty_iff]
  have hnormalized : isNormalized (built.expanded.sort (· ≤ ·)) = true := by
    simp [isNormalized]
  have hauthorization : validateOperationPlanAuthorization authorizationOf plan = .ok () := by
    rw [validateOperationPlanAuthorization, built.authorized, except_bind_ok,
      if_pos (authorizationMatches_self _)]
    rfl
  rcases exists_settle (fun current => ⟨_, rfl⟩)
    ((built.expanded.sort (· ≤ ·)).length + 1)
    (requested.toFinset ∪ built.expanded.filter fun candidate =>
      ∃ root ∈ requested.toFinset, candidate.isSameOrDescendant root = true) with ⟨final, hfinal⟩
  have hmem : ∀ path, path ∈ final ↔ Covered tree snapshot.pathSet requested path :=
    fun path => built.mem_authorized hexact hfinal
  rw [validateDiscardRequestScope, built.plan_kind, built.plan_selectedPaths, built.rejected]
  simp only [ne_eq, not_true_eq_false, if_false, hnonempty, orError, except_bind_ok, hnormalized,
    Bool.true_eq_false, Finset.sort_toFinset, built.requested_subset hexact, hfinal,
    hauthorization]
  rw [except_guard_eq_ok, not_not, and_iff_left rfl]
  constructor
  · rintro rfl path hpath
    exact (hmem path).mp ((built.mem_expanded hexact).mpr hpath)
  · intro hcovered
    ext path
    rw [hmem, built.mem_expanded hexact]
    exact ⟨Covered.expanded, hcovered path⟩

end Authorization

end DiscardBuilt

end Built

end CheckPo
