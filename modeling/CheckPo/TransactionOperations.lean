/-
Carrying out a plan: from the first backup to the last operation the project stays recoverable,
and at the end every operation has left at its path what the plan says.  Staging changes
nothing in the project.
-/
import CheckPo.TransactionPublished

namespace CheckPo

section Operations

variable {context : TransactionContext} {plan : OperationPlan} {before : ProjectFiles}
variable {journal : TransactionJournal} {operation : FileOperation}

/-- What an operation left remains where nothing changes but that directories come. -/
theorem AfterOperation.stays {now later : Option (TreeEntry ProjectFile)}
    (h : AfterOperation context operation now)
    (hlater : later = now ∨ now = none ∧ later = some .directory) :
    AfterOperation context operation later := by
  rcases hlater with rfl | ⟨rfl, rfl⟩
  · exact h
  rw [AfterOperation] at h ⊢
  cases hafter : operation.afterHash with
  | none => exact fun file heq => by cases heq
  | some hash =>
      rw [hafter] at h
      rcases h with ⟨file, hfile, -⟩
      cases hfile

/-- No file stands where one is deleted. -/
def DeletedGone (plan : OperationPlan) (workspace : Workspace) : Prop :=
  ∀ operation ∈ plan.operations, operation.operationType = .delete →
    ∀ file, workspace.project.entry operation.path.segments ≠ some (.file file)

section Fits

variable (hfits : PlanFits context plan before)
variable (hplain : ∀ files path attempt, PlainName (context.projectUuid files path attempt))
include hfits hplain

/-- One operation after others. -/
theorem applyOperation_round {kind : OperationPlanKind} {transactionId : String}
    {remaining front rest : List FileOperation} (heq : plan.operations = front ++ operation :: rest) :
    Guarded (Undergoing context plan before True journal)
      (fun state => DeletedGone plan state ∧ ∀ other ∈ front,
        AfterOperation context other (state.project.entry other.path.segments))
      (applyOperation context kind transactionId remaining operation)
      fun _ state => DeletedGone plan state ∧
        AfterOperation context operation (state.project.entry operation.path.segments) ∧
        ∀ other ∈ front,
          AfterOperation context other (state.project.entry other.path.segments) := by
  have hmem : operation ∈ plan.operations := by
    rw [heq]
    exact List.mem_append_right _ List.mem_cons_self
  have hapart : ∀ other ∈ front, other.path.segments ≠ operation.path.segments := by
    intro other hother hpath
    have hnodup := hfits.distinct
    rw [heq, List.map_append, List.map_cons, List.nodup_append] at hnodup
    exact hnodup.2.2 _ (List.mem_map_of_mem hother) _ List.mem_cons_self
      (TrackedUnityFilePath.segments_injective hpath)
  apply Guarded.of_state
  rintro start hstart ⟨hgone, hfront⟩
  apply (applyOperation_guarded hfits hmem hplain).of_invariant
  · rintro state - rfl
    exact ⟨.refl hstart, fun htype => hgone operation hmem htype⟩
  · exact fun state hstate => hstate.toUndergoing
  · rintro found state hstate hdone
    refine ⟨fun other hother htype file hfile => ?_, hdone,
      fun other hother => (hfront other hother).stays ?_⟩
    · by_cases hpath : other.path.segments = operation.path.segments
      · obtain rfl := hfits.eq_of_path hother hmem hpath
        rw [AfterOperation, hfits.deleted hmem htype] at hdone
        exact hdone file hfile
      · rcases hstate.others _ (hfits.own other hother) hpath with hsame | ⟨-, hdirectory⟩
        · exact hgone other hother htype file (hsame ▸ hfile)
        · rw [hdirectory] at hfile
          cases hfile
    · have hother' : other ∈ plan.operations := by
        rw [heq]
        exact List.mem_append_left _ hother
      exact hstate.others _ (hfits.own other hother') (hapart other hother)

/-- From the project as it was, all of the plan's operations. -/
theorem applyOperations_guarded {transactionId : String} :
    Guarded (Undergoing context plan before True journal) (fun state => state.project = before)
      (applyOperations context plan transactionId) fun _ state => ∀ operation ∈ plan.operations,
        AfterOperation context operation (state.project.entry operation.path.segments) := by
  have hstart : ∀ state, Undergoing context plan before True journal state →
      state.project = before → BackingOff plan before [] [] state := by
    intro state _ hproject
    exact ⟨fun other _ => Or.inl (by rw [hproject]), List.forall_mem_nil _, List.forall_mem_nil _⟩
  have hbackups : Guarded (Undergoing context plan before True journal)
      (fun state => state.project = before)
      ((chunks transactionBackupFileBatchSize plan.backedUp).forM (backupBatch context plan.kind))
      fun _ => CarryingOut plan before :=
    (backups_guarded hfits hplain).weaken hstart fun _ _ _ hstate =>
      hstate.1.carryingOut hfits hstate.2
  have hloop : Guarded (Undergoing context plan before True journal) (DeletedGone plan)
      (plan.operations.foldlM (applyOperation context plan.kind transactionId) [])
      fun _ state => DeletedGone plan state ∧ ∀ operation ∈ plan.operations,
        AfterOperation context operation (state.project.entry operation.path.segments) :=
    .foldlM_each (fun operation (state : Workspace) => AfterOperation context operation
        (state.project.entry operation.path.segments))
      (fun front operation rest _ heq => applyOperation_round hfits hplain heq) []
  refine .bind hbackups fun _ => .bind (removeDirectories_guarded hfits hplain) fun _ =>
    .bind createDirectories_guarded fun _ => ?_
  exact hloop.weaken (fun _ _ hstate => hstate.noFile) fun _ _ _ hstate => hstate.2

end Fits

end Operations

/-! Staging. -/

section Staging

variable {context : TransactionContext}

theorem fillStagedFile_payloadOnly {objectId : ObjectId} {sizeBytes : Nat}
    {modifiedAtUtc : Option String} {content : Bytes} {destination : Path}
    (hdestination : destination.head? ≠ some "backup") :
    WritesAlong PayloadOnly
      (fillStagedFile context objectId sizeBytes modifiedAtUtc content destination) := by
  refine .bind (writePayload_payloadOnly hdestination) fun _ => .ite .lift ?_
  refine .bind .lift fun time => .bind ?_ fun _ => .bind .inspect fun _ => .lift
  rcases time with _ | time
  · exact .pure
  · exact setPayloadTime_payloadOnly

theorem stageObjectForTransaction_payloadOnly {objectId : ObjectId} {path : TrackedUnityFilePath}
    {sizeBytes : Nat} {modifiedAtUtc : Option String} :
    WritesAlong PayloadOnly
      (stageObjectForTransaction context objectId (stagedPath path) sizeBytes modifiedAtUtc) := by
  have hhead : (stagedPath path).head? ≠ some "backup" := by
    rw [stagedPath, List.head?_cons]
    decide
  refine .bind .lift fun content => .bind .inspect fun _ =>
    .bind createPayloadFile_payloadOnly fun _ =>
    .bind (.attempt (fillStagedFile_payloadOnly hhead)) fun result => ?_
  rcases result with error | _
  · exact .bind (.attempt (unlinkPayloadFile_payloadOnly (by decide) path.segments_ne_nil))
      fun _ => .lift
  · exact .pure

theorem stageOperation_payloadOnly {snapshot : SnapshotFile} {operation : FileOperation} :
    WritesAlong PayloadOnly (stageOperation context snapshot operation) :=
  .ite (.bind .lift fun _ => stageObjectForTransaction_payloadOnly) .pure

theorem stageGroup_payloadOnly {snapshot : SnapshotFile} (operations : List FileOperation) :
    WritesAlong PayloadOnly (stageGroup context snapshot operations) := by
  induction operations with
  | nil => exact .pure
  | cons operation rest ih =>
      exact .bind (.attempt stageOperation_payloadOnly) fun _ => .bind ih fun _ => .pure

theorem cleanupStagedSource_payloadOnly {operation : FileOperation} :
    WritesAlong PayloadOnly (cleanupStagedSource context operation) := by
  refine .bind .inspect fun found => .ite .lift (.bind .lift fun _ => ?_)
  exact unlinkPayloadFile_payloadOnly (by decide) operation.path.segments_ne_nil

end Staging

end CheckPo
