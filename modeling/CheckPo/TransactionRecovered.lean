/-
A whole rollback: whatever a transaction left in the project, when the rollback succeeds the
project is as it was before, but for names of the program and directories above restored files.
-/
import CheckPo.PendingTransactions
import CheckPo.TransactionRefilling

namespace CheckPo

section Recovered

variable {context : TransactionContext} {plan : OperationPlan} {before : ProjectFiles}
variable {applied : Prop} {journal : TransactionJournal} {workspace after : Workspace}
variable {operation : FileOperation} {transactionId nowUtc : String}

/-! The check at the end. -/

theorem accepted_of_currentFileState {canonicalUtc : Timestamp → String} {blake3 : Bytes → Digest32}
    {tree : WorkingTree} {path : TrackedUnityFilePath} {beforePaths : Finset TrackedUnityFilePath}
    {current : Option CurrentFileState}
    (h : currentFileStateForRecovery canonicalUtc blake3 tree path beforePaths = .ok current) :
    (∃ file, tree.lookup path.segments = some (.file file) ∧
      current = some (WorkingTree.fileState canonicalUtc blake3 file)) ∨
    current = none ∧ ∀ file, tree.lookup path.segments ≠ some (.file file) := by
  have hnot : (∀ file, tree.symlinkMetadata path.segments ≠ .ok (.file file)) →
      ∀ file, tree.lookup path.segments ≠ some (.file file) :=
    fun hmetadata file hfile => hmetadata file (WorkingTree.symlinkMetadata_entry hfile)
  rw [currentFileStateForRecovery] at h
  split at h
  · simp only [except_bind_eq_ok, except_pure_eq_ok, WorkingTree.currentFileStateFromAnchor] at h
    rcases h with ⟨state, ⟨file, hopen, rfl⟩, rfl⟩
    exact Or.inl ⟨file, WorkingTree.lookup_of_openFile hopen, rfl⟩
  · next hfound =>
      exact Or.inr ⟨(Except.ok.inj h).symm, hnot fun file hfile => by
        rw [hfound] at hfile
        cases hfile⟩
  · cases h
  · next hfound =>
      exact Or.inr ⟨(Except.ok.inj h).symm, hnot fun file hfile => by
        rw [hfound] at hfile
        cases hfile⟩
  · next hfound =>
      rw [except_ensure_eq_ok, Except.ok.injEq] at h
      exact Or.inr ⟨h.2.symm, hnot fun file hfile => by
        rw [hfound] at hfile
        cases hfile⟩

theorem accepted_of_ensureBeforeStateRestored {operations : List FileOperation}
    (h : ensureBeforeStateRestored context.canonicalUtc context.blake3
      (workspace.workingTree context) operations = .ok ())
    (hmem : operation ∈ operations) :
    Standing.Accepted context operation (workspace.project.entry operation.path.segments) := by
  rw [ensureBeforeStateRestored, forM_eq_ok_iff] at h
  have hoperation := h operation hmem
  simp only [except_bind_eq_ok, except_ensure_eq_ok, inBeforeState, decide_eq_true_eq] at hoperation
  rcases hoperation with ⟨current, hcurrent, ⟨hhash, -, htime⟩, -⟩
  rw [Standing.Accepted]
  rcases accepted_of_currentFileState hcurrent with ⟨file, hfile, rfl⟩ | ⟨rfl, hnone⟩
  · rw [← hhash]
    exact ⟨file, hfile, rfl, htime.symm⟩
  · rw [← hhash]
    exact hnone

/-! The rollback. -/

/-- What the journal of a plan's transaction says. -/
theorem rewrites_journal (h : journal.Rewrites (plan.journal transactionId nowUtc)) :
    journal.operations = plan.operations ∧
      journal.directoriesToRemove = plan.directoriesToRemove ∧
      journal.directoriesToCreate = plan.directoriesToCreate := by
  rcases h with ⟨state, updatedAtUtc, rfl⟩
  exact ⟨rfl, rfl, rfl⟩

/-- Where the rollback has done its work, the project is as before. -/
theorem Refilling.restored (hfits : PlanFits context plan before)
    (h : Refilling context plan before applied journal workspace)
    (hcheck : ensureBeforeStateRestored context.canonicalUtc context.blake3
      (workspace.workingTree context) plan.operations = .ok ()) :
    Undergoing context plan before False journal workspace where
  journal := h.journal
  between path hown := by
    apply (h.between path hown).restored hfits
    · rintro operation hmem rfl
      exact accepted_of_ensureBeforeStateRestored hcheck hmem
    · rintro directory hmem rfl
      exact h.created directory hmem hown
    · rintro directory hmem rfl
      exact h.removed directory hmem hown

section Fits

variable (hfits : PlanFits context plan before)
variable (htimes : ∀ time parsed, context.parseRfc3339 (context.canonicalUtc time) = .ok parsed →
  context.canonicalUtc parsed = context.canonicalUtc time)
variable (hplain : ∀ files path attempt, PlainName (context.projectUuid files path attempt))
variable (hbegun : journal.Rewrites (plan.journal transactionId nowUtc))
include hfits hbegun

include hplain in
/-- What came goes, and the directories are as before, when the rest is done. -/
theorem rollbackDirectories_guarded {rest : TransactionM Unit} {post : Unit → Workspace → Prop}
    (hrest : Guarded (Undergoing context plan before applied journal)
      (Refilling context plan before applied journal) rest post) :
    Guarded (Undergoing context plan before applied journal) (fun _ => True)
      (do
        (journal.operations.filter FileOperation.isStaged).forM
          (rollbackAfterFile context journal (beforeFiles journal.operations))
        (journal.directoriesToCreate.mergeSort removalOrder).forM
          (rollbackCreatedDirectory context (beforeFiles journal.operations))
        (journal.directoriesToRemove.mergeSort fun left right => decide (left ≤ right)).forM
          (ensureProjectDirectoryExistsForRecovery context)
        rest) post := by
  rcases rewrites_journal hbegun with ⟨hoperations, hremove, hcreate⟩
  refine .bind (m := fun _ _ => True) (.forM (fun _ _ => True) fun operation rest hsuffix => ?_)
    fun _ => ?_
  · have hmem := List.mem_filter.mp (hsuffix.subset List.mem_cons_self)
    rw [hoperations] at hmem
    exact rollbackAfterFile_guarded hplain hfits hmem.1 hmem.2
  have hcreated : Guarded (Undergoing context plan before applied journal) (fun _ => True)
      ((journal.directoriesToCreate.mergeSort removalOrder).forM
        (rollbackCreatedDirectory context (beforeFiles journal.operations)))
      fun _ state => True ∧ ∀ directory ∈ journal.directoriesToCreate.mergeSort removalOrder,
        CreatedGone state directory := by
    refine .forM_each (fun directory state => CreatedGone state directory)
      fun front directory rest heq => ?_
    have hmem : directory ∈ journal.directoriesToCreate :=
      List.mem_mergeSort.mp (by rw [heq]; simp)
    rw [hcreate] at hmem
    exact (rollbackCreatedDirectory_guarded hplain hfits hmem).weaken (fun _ _ h => h.2)
      fun _ _ _ h => ⟨trivial, h⟩
  have hremoved : Guarded (Undergoing context plan before applied journal)
      (fun state => ∀ directory ∈ plan.directoriesToCreate, CreatedGone state directory)
      ((journal.directoriesToRemove.mergeSort fun left right => decide (left ≤ right)).forM
        (ensureProjectDirectoryExistsForRecovery context))
      fun _ state => (∀ directory ∈ plan.directoriesToCreate, CreatedGone state directory) ∧
        ∀ directory ∈ journal.directoriesToRemove.mergeSort fun left right => decide (left ≤ right),
          RemovedBack state directory := by
    refine .forM_each (fun directory state => RemovedBack state directory)
      fun front directory rest heq => ?_
    have hmem : directory ∈ journal.directoriesToRemove :=
      List.mem_mergeSort.mp (by rw [heq]; simp)
    rw [hremove] at hmem
    exact ensureProjectDirectoryExistsForRecovery_guarded hfits hmem
  refine .bind (hcreated.implies fun _ state _ h directory hmem =>
    h.2 directory (List.mem_mergeSort.mpr (hcreate ▸ hmem))) fun _ => .bind
      (hremoved.implies fun _ state hstate h => ?_) fun _ => hrest
  exact ⟨hstate, h.1, fun directory hmem =>
    h.2 directory (List.mem_mergeSort.mpr (hremove ▸ hmem))⟩

include htimes hplain in
/-- A rollback that succeeds restores the project. -/
theorem recoverTopologyTransaction_guarded :
    Guarded (Undergoing context plan before applied journal) (fun _ => True)
      (recoverTopologyTransaction context journal)
      fun _ => Undergoing context plan before False journal := by
  have hoperations := (rewrites_journal hbegun).1
  have hrefill : Guarded (Refilling context plan before applied journal) (fun _ => True)
      (do
        (sortOperations (journal.operations.filter FileOperation.isBackedUp)).forM
          (rollbackBeforeFile context journal (beforeFiles journal.operations))
        (journal.operations.filter fun operation => operation.operationType == .setMetadata).forM
          (recoverProjectFileMtime context)
        Durable.inspect fun workspace => ensureBeforeStateRestored context.canonicalUtc
          context.blake3 (workspace.workingTree context) journal.operations
        if journal.kind = .discard then
          journal.operations.forM fun operation => guardDiscard context journal.kind operation.path
        else return () : TransactionM PUnit)
      fun _ => Undergoing context plan before False journal := by
    refine .bind (m := fun _ _ => True) (.forM (fun _ _ => True) fun operation rest hsuffix => ?_)
      fun _ => .bind (m := fun _ _ => True)
        (.forM (fun _ _ => True) fun operation rest hsuffix => ?_) fun _ => ?_
    · have hmem := List.mem_mergeSort.mp (hsuffix.subset List.mem_cons_self)
      rw [List.mem_filter, hoperations] at hmem
      exact rollbackBeforeFile_guarded hfits htimes hplain hmem.1 hmem.2
    · have hmem := List.mem_filter.mp (hsuffix.subset List.mem_cons_self)
      rw [hoperations, beq_iff_eq] at hmem
      exact recoverProjectFileMtime_guarded hfits htimes hmem.1 hmem.2
    · refine .bind (m := fun _ => Undergoing context plan before False journal) (.inspect ?_)
        fun _ => .ite (fun _ => ?_) fun _ => .pure fun _ _ h => h
      · intro _ state hcheck hstate _
        rw [hoperations] at hcheck
        exact hstate.restored hfits hcheck
      · exact .forM (fun _ => Undergoing context plan before False journal)
          fun _ _ _ => guardDiscard_guarded
  exact rollbackDirectories_guarded hfits hplain hbegun (hrefill.of_invariant
    (fun _ _ hstate => ⟨hstate, trivial⟩) (fun _ hstate => hstate.toUndergoing) fun _ _ _ h => h)

end Fits

end Recovered

end CheckPo
