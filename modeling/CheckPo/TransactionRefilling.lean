/-
The second half of a rollback: the files that went come back from their backups, the times
that changed are set back, and the check at the end finds the project as it was.
-/
import CheckPo.TransactionUndoing

namespace CheckPo

section Refilling

variable (context : TransactionContext) (plan : OperationPlan) (before : ProjectFiles)

/-- The directories are as before; files may still come back. -/
structure Refilling (applied : Prop) (journal : TransactionJournal) (workspace : Workspace) : Prop
    extends Undergoing context plan before applied journal workspace where
  created : ∀ directory ∈ plan.directoriesToCreate, CreatedGone workspace directory
  removed : ∀ directory ∈ plan.directoriesToRemove, RemovedBack workspace directory

variable {context plan before} {applied : Prop} {journal : TransactionJournal}
variable {workspace after : Workspace} {operation : FileOperation} {path : Path}

namespace Refilling

theorem ownOnly (h : Refilling context plan before applied journal workspace)
    (hafter : OwnOnly workspace after) : Refilling context plan before applied journal after where
  toUndergoing := h.toUndergoing.ownOnly hafter
  created directory hmem hown := by
    rw [hafter.project _ hown]
    exact h.created directory hmem hown
  removed directory hmem hown := by
    rw [hafter.project _ hown]
    exact h.removed directory hmem hown

/-- A file comes, or changes. -/
theorem file (h : Refilling context plan before applied journal workspace)
    (hafter : Undergoing context plan before applied journal after) {file : ProjectFile}
    (hnow : workspace.project.entry path ≠ some .directory)
    (hfile : after.project.entry path = some (.file file))
    (hothers : ∀ other, ¬ ToolPath other → other ≠ path →
      after.project.entry other = workspace.project.entry other) :
    Refilling context plan before applied journal after where
  toUndergoing := hafter
  created directory hmem hown := by
    by_cases hself : directory.segments = path
    · rw [hself, hfile]
      simp
    · rw [hothers _ hown hself]
      exact h.created directory hmem hown
  removed directory hmem hown := by
    by_cases hself : directory.segments = path
    · exact absurd (hself ▸ h.removed directory hmem hown) hnow
    · rw [hothers _ hown hself]
      exact h.removed directory hmem hown

/-- A file gets the time that it had. -/
theorem settle (h : Refilling context plan before applied journal workspace)
    {target : TrackedUnityFilePath} {file found : ProjectFile} {time : Timestamp}
    (hfile : workspace.project.entry target.segments = some (.file file))
    (hfound : before.entry target.segments = some (.file found))
    (htime : context.canonicalUtc time = context.canonicalUtc found.modified) :
    Refilling context plan before applied journal (workspace.setProjectTime target.segments time) := by
  have hentry := entry_setProjectTime time target.segments_ne_nil target.plainName_getLastD_segments
    hfile
  refine h.file ?_ (by rw [hfile]; simp) hentry fun other _ hne => ?_
  · rw [Workspace.setProjectTime, hfile]
    apply h.toUndergoing.put
    intro hown
    have hstands := h.between _ hown
    rw [hfile] at hstands
    exact hstands.settled hfound htime
  · rw [Workspace.setProjectTime, hfile]
    exact ProjectFiles.entry_put_of_ne hne

end Refilling

section Fits

variable (hfits : PlanFits context plan before)
-- a time that is written out and read again is the same text
variable (htimes : ∀ time parsed, context.parseRfc3339 (context.canonicalUtc time) = .ok parsed →
  context.canonicalUtc parsed = context.canonicalUtc time)
include hfits htimes

/-! Times. -/

theorem restoreBeforeMtimeForRecovery_guarded (hmem : operation ∈ plan.operations)
    (hbacked : operation.isBackedUp = true) :
    Guarded (Refilling context plan before applied journal) (fun _ => True)
      (restoreBeforeMtimeForRecovery context operation) fun _ _ => True := by
  rcases hfits.backedUp hmem hbacked with ⟨found, hfound, -, -, htext⟩
  refine .lift_bind fun expectedHash _ => .lift_bind fun expectedSize _ =>
    .lift_bind fun text hbefore => ?_
  have hgiven := orError_eq_ok.mp hbefore
  rw [htext, Option.some.injEq] at hgiven
  refine .inspect_bind fun file => .ite (fun _ => .fail) fun _ => .lift_bind fun time htime => ?_
  rcases parseMtime_eq_ok htime with ⟨parsed, rfl, hparsed⟩
  refine .bind (m := fun _ _ => True) (.write ?_) fun _ =>
    .bind (m := fun _ _ => True) (.inspect fun _ _ _ _ h => h) fun _ => .lift fun _ _ _ _ h => h
  rintro state hstate ⟨-, hread⟩
  exact ⟨hstate.settle (Workspace.entry_of_openFile hread) hfound
    (htimes found.modified parsed (by rw [hgiven]; exact hparsed)), trivial⟩

/-- A file whose time was changed. -/
theorem recoverProjectFileMtime_guarded (hmem : operation ∈ plan.operations)
    (htype : operation.operationType = .setMetadata) :
    Guarded (Refilling context plan before applied journal) (fun _ => True)
      (recoverProjectFileMtime context operation) fun _ _ => True := by
  rcases (hfits.metadata hmem htype).2 with ⟨found, hfound, -, -, htext⟩
  refine .inspect_bind fun file => .ite (fun _ => .fail) fun _ =>
    .lift_bind fun text hbefore => .lift_bind fun _ _ => ?_
  have hgiven := orError_eq_ok.mp hbefore
  rw [htext, Option.some.injEq] at hgiven
  refine .ite (fun _ => .pure fun _ _ h => trivial) fun _ => .ite (fun _ => .fail) fun _ => ?_
  split
  · exact .fail
  · next parsed hparsed =>
      refine .bind (m := fun _ _ => True) (.write ?_) fun _ =>
        .ite (fun _ => .fail) fun _ => .pure fun _ _ h => h
      rintro state hstate ⟨-, hread⟩
      exact ⟨hstate.settle (Workspace.entry_of_openFile hread) hfound
        (htimes found.modified parsed (by rw [hgiven]; exact hparsed)), trivial⟩

/-! Backups. -/

omit hfits htimes in
/-- The backup of a file holds a content. -/
def BackupAt (operation : FileOperation) (content : Bytes) (workspace : Workspace) : Prop :=
  workspace.payload.entry (backupPath operation.path) = some (.file content)

theorem fillFromBackup_guarded (hmem : operation ∈ plan.operations)
    (hbacked : operation.isBackedUp = true) {content : Bytes} {transactionId : String} :
    Guarded (Refilling context plan before applied journal)
      (fun state => BackupAt operation content state ∧
        ∃ file, CopyAt context operation transactionId file state)
      (fillFromBackup context operation content (temporaryOf context operation transactionId))
      fun _ _ => True := by
  have hown := hfits.own operation hmem
  have htool : ToolPath (temporaryOf context operation transactionId) :=
    toolPath_transactionMaterializationTempPath _ _ _
  rcases hfits.backedUp hmem hbacked with ⟨found, hfound, -, -, htext⟩
  refine .bind (m := fun _ state => BackupAt operation content state ∧
    ∃ written, CopyAt context operation transactionId ⟨content, written⟩ state) (.write ?_)
    fun _ => ?_
  · rintro state hstate ⟨hbackup, file, hcopy⟩
    exact ⟨hstate.ownOnly (ownOnly_put htool), hbackup, _,
      copyAt_put hown hcopy.1 (by rw [hcopy.2]; simp)⟩
  refine .lift_bind fun time htime => ?_
  rw [htext] at htime
  rcases parseMtime_eq_ok htime with ⟨given, rfl, hgiven⟩
  refine .bind (m := fun _ state => BackupAt operation content state ∧
    CopyAt context operation transactionId ⟨content, given⟩ state) (.write ?_) fun _ => ?_
  · rintro state hstate ⟨hbackup, written, hcopy⟩
    refine ⟨hstate.ownOnly (ownOnly_setTime htool), ?_, copyAt_setTime hown hcopy⟩
    rw [BackupAt, (ownOnly_setTime htool).payload]
    exact hbackup
  refine .bind (m := fun _ state => BackupAt operation content state ∧
    CopyAt context operation transactionId ⟨content, given⟩ state) (.inspect fun _ _ _ _ h => h)
    fun _ => .lift_bind fun _ _ => ?_
  refine .inspect_bind fun occupied => .ite (fun _ => .fail) fun hoccupied => .write ?_
  rintro state hstate ⟨⟨hbackup, hcopy⟩, hread⟩
  replace hoccupied := Workspace.entry_of_unoccupied hread hoccupied
  have hstands := hstate.between _ hown
  rw [hoccupied] at hstands
  have hcontent := hstands.vacant.2.1 found hfound
  rw [← backupPath, hbackup, Option.some.injEq, TreeEntry.file.injEq] at hcontent
  rcases copyAt_move hown hcopy hoccupied with ⟨hentry, hothers⟩
  refine ⟨hstate.file (undergoing_move hown hstate.toUndergoing hcopy hoccupied ?_)
    (by rw [hoccupied]; exact (Option.some_ne_none _).symm) hentry hothers, trivial⟩
  apply Standing.same
  simp only [hfound, Option.map_some, seen, hcontent, htimes found.modified given hgiven]

variable (hplain : ∀ files path attempt, PlainName (context.projectUuid files path attempt))
include hplain

theorem copyBackupFileToProject_guarded (hmem : operation ∈ plan.operations)
    (hbacked : operation.isBackedUp = true) {transactionId : String} :
    Guarded (Refilling context plan before applied journal) (fun _ => True)
      (copyBackupFileToProject context operation transactionId) fun _ _ => True := by
  have hown := hfits.own operation hmem
  have htool : ToolPath (temporaryOf context operation transactionId) :=
    toolPath_transactionMaterializationTempPath _ _ _
  refine .lift_bind fun expected _ => .lift_bind fun expectedSize _ => ?_
  refine .bind (m := fun found state => BackupAt operation found.1 state) (.inspect ?_)
    fun found => ?_
  · rintro ⟨content, modified⟩ state hread - -
    exact (entry_of_openPayloadFile hread).1
  refine .ite (fun _ => .fail) fun _ => .lift_bind fun _ _ => .inspect_bind fun _ => ?_
  refine .bind (m := fun _ state => BackupAt operation found.1 state ∧
    ∃ file, CopyAt context operation transactionId file state) ?_ fun _ => ?_
  · refine .inspect_bind fun occupied => .ite (fun _ => .fail) fun hoccupied => .write ?_
    rintro state hstate ⟨⟨hbackup, hopen⟩, hread⟩
    replace hoccupied := Workspace.entry_of_unoccupied hread hoccupied
    refine ⟨hstate.ownOnly (ownOnly_put htool), hbackup, _, copyAt_put hown
      (Workspace.entry_of_openProjectDirectory hopen) ?_⟩
    rw [temporaryOf, hoccupied]
    exact (Option.some_ne_none _).symm
  refine .bind (fillFromBackup_guarded hfits htimes hmem hbacked).attempt_any ?_
  rintro (error | ⟨⟨⟩⟩)
  · refine .bind (m := fun _ _ => True) ?_ fun _ => .fail
    exact ((unlinkProjectFile_ownOnly hplain htool).attempt).guarded
      (fun _ _ hstate _ hafter => hstate.ownOnly hafter) fun _ _ _ _ h _ => h
  · exact .pure fun _ _ h => h

theorem rollbackBeforeFile_guarded (hmem : operation ∈ plan.operations)
    (hbacked : operation.isBackedUp = true) {beforePaths : Finset TrackedUnityFilePath} :
    Guarded (Refilling context plan before applied journal) (fun _ => True)
      (rollbackBeforeFile context journal beforePaths operation) fun _ _ => True := by
  refine .bind guardDiscard_guarded fun _ => .bind (m := fun _ _ => True) ?_ fun _ =>
    guardDiscard_guarded
  refine .lift_bind fun expected _ => .bind (m := fun _ _ => True) (.inspect fun _ _ _ _ h => h)
    fun current => ?_
  rcases current with _ | current
  · refine .bind (m := fun _ _ => True) (.inspect fun _ _ _ _ h => h) fun found =>
      .ite (fun _ => ?_) fun _ => .fail
    refine .bind (m := fun _ _ => True) ?_ fun _ =>
      copyBackupFileToProject_guarded hfits htimes hplain hmem hbacked
    exact .bind (m := fun _ _ => True) (.inspect fun _ _ _ _ h => h) fun _ =>
      .ite (fun _ => .fail) fun _ => .pure fun _ _ h => h
  · exact .ite (fun _ => restoreBeforeMtimeForRecovery_guarded hfits htimes hmem hbacked)
      fun _ => .fail

end Fits

end Refilling

end CheckPo
