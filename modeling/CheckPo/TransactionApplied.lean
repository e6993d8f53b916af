/-
What applying a plan does to the project, step by step: every file that goes is in the backup
before it goes, and when the last operation has been carried out each of them has left what
the plan says.
-/
import CheckPo.TransactionSteps

namespace CheckPo

/-! Groups. -/

theorem flatten_toChunksAux {α : Type} (size : Nat) (values : List α) (room : Nat) :
    (List.toChunksAux size values room).1 ++ (List.toChunksAux size values room).2.flatten =
      values := by
  induction values generalizing room with
  | nil => cases room <;> rfl
  | cons value rest ih =>
      cases room with
      | zero => simpa [List.toChunksAux] using ih size
      | succ room => simpa [List.toChunksAux] using ih room

@[simp] theorem flatten_chunks {α : Type} (size : Nat) (values : List α) :
    (chunks size values).flatten = values := by
  cases values with
  | nil => rfl
  | cons value rest =>
      rw [chunks, List.flatten_cons, List.cons_append, flatten_toChunksAux]

section Backups

variable {context : TransactionContext} {plan : OperationPlan} {before : ProjectFiles}
variable {journal : TransactionJournal} {operation other : FileOperation}
variable {workspace after : Workspace}

/-- Only the backup of one path is written. -/
structure BackingUp (path : TrackedUnityFilePath) (workspace after : Workspace) : Prop where
  project : after.project = workspace.project
  journal : after.journal = workspace.journal
  backups : ∀ other content, other ≠ path.segments →
    workspace.payload.entry ("backup" :: other) = some (.file content) →
    after.payload.entry ("backup" :: other) = some (.file content)

instance preorderBackingUp (path : TrackedUnityFilePath) :
    IsPreorder Workspace (BackingUp path) where
  refl _ := ⟨rfl, rfl, fun _ _ _ h => h⟩
  trans _ _ _ hfirst hrest := ⟨hrest.project.trans hfirst.project,
    hrest.journal.trans hfirst.journal, fun other content hother h =>
      hrest.backups other content hother (hfirst.backups other content hother h)⟩

theorem PayloadOnly.backingUp {path : TrackedUnityFilePath} (h : PayloadOnly workspace after) :
    BackingUp path workspace after :=
  ⟨h.project, h.journal, fun other content _ hfile => h.backups other content hfile⟩

theorem WritesAlong.backingUp {α : Type} {program : TransactionM α} {path : TrackedUnityFilePath}
    (h : WritesAlong PayloadOnly program) : WritesAlong (BackingUp path) program :=
  fun state after hafter => (h state after hafter).backingUp

/-- Two files that go do not stand one below the other. -/
theorem PlanFits.backedUp_apart (hfits : PlanFits context plan before)
    (hmem : operation ∈ plan.operations) (hbacked : operation.isBackedUp = true)
    (hother : other ∈ plan.operations) (hotherBacked : other.isBackedUp = true)
    (hstarts : operation.path.segments <+: other.path.segments) : other = operation := by
  rcases hfits.backedUp hmem hbacked with ⟨file, hfile, -⟩
  rcases hfits.backedUp hother hotherBacked with ⟨found, hfound, -⟩
  apply hfits.eq_of_path hother hmem
  by_contra hne
  rw [ProjectFiles.entry_eq_none_below (by rw [hfile]; simp) hstarts hne] at hfound
  cases hfound

/-- A file that goes is there as before, or gone and in the backup. -/
def BackedUpOrThere (before : ProjectFiles) (operation : FileOperation) (workspace : Workspace) :
    Prop :=
  workspace.project.entry operation.path.segments = before.entry operation.path.segments ∨
    Kept before workspace.payload operation.path.segments ∧
      workspace.project.entry operation.path.segments = none

/-- Writing a backup while its file is there. -/
theorem Undergoing.backingUp (h : Undergoing context plan before True journal workspace)
    (hafter : BackingUp operation.path workspace after)
    (hthere : workspace.project.entry operation.path.segments =
      before.entry operation.path.segments) :
    Undergoing context plan before True journal after where
  journal := hafter.journal.trans h.journal
  between path hpath := by
    rw [hafter.project]
    by_cases hself : path = operation.path.segments
    · rw [hself, hthere]
      exact .same rfl
    · have hstands := h.between path hpath
      have hkeeps (hkept : Kept before workspace.payload path) : Kept before after.payload path :=
        fun file hfile => hafter.backups path file.content hself (hkept file hfile)
      generalize workspace.project.entry path = now at hstands
      cases hstands with
      | same h => exact .same h
      | implied hbefore habove hnot => exact .implied hbefore habove hnot
      | retimed h hmem htype hpath hbefore => exact .retimed h hmem htype hpath hbefore
      | gone h hleaves hkept => exact .gone h hleaves (hkeeps hkept)
      | came h hmem hstaged hpath hkept hhash => exact .came h hmem hstaged hpath (hkeeps hkept) hhash
      | made h hleaves hkept hcomes => exact .made h hleaves (hkeeps hkept) hcomes

theorem BackedUpOrThere.backingUp (hfits : PlanFits context plan before)
    (hmem : operation ∈ plan.operations) (hother : other ∈ plan.operations)
    (h : BackedUpOrThere before other workspace)
    (hafter : BackingUp operation.path workspace after)
    (hthere : workspace.project.entry operation.path.segments =
      before.entry operation.path.segments) :
    BackedUpOrThere before other after := by
  rw [BackedUpOrThere, hafter.project]
  by_cases hself : other = operation
  · rw [hself]
    exact Or.inl hthere
  · rcases h with hsame | ⟨hkept, hnone⟩
    · exact Or.inl hsame
    · refine Or.inr ⟨fun file hfile => hafter.backups _ _ (fun heq => hself ?_) (hkept file hfile),
        hnone⟩
      exact hfits.eq_of_path hother hmem heq

/-- The files that go. -/
def OperationPlan.backedUp (plan : OperationPlan) : List FileOperation :=
  plan.operations.filter FileOperation.isBackedUp

theorem mem_backedUp : operation ∈ plan.backedUp ↔
    operation ∈ plan.operations ∧ operation.isBackedUp = true :=
  List.mem_filter

theorem backingUp_writePayload {path : TrackedUnityFilePath} {content : Bytes} :
    BackingUp path workspace (workspace.writePayload context (backupPath path) content) where
  project := rfl
  journal := rfl
  backups other content hother hfile := by
    change (workspace.payload.put (backupPath path) _).entry _ = _
    rw [FileTree.entry_put_of_ne, hfile]
    exact fun heq => hother (List.cons.inj heq).2

theorem backingUp_setPayloadTime {path : TrackedUnityFilePath} {target : Path} {time : Timestamp} :
    BackingUp path workspace (workspace.setPayloadTime target time) :=
  ⟨rfl, rfl, fun _ _ _ h => h⟩

/-- What is written of a file that has been read. -/
theorem writeBackup_guarded (workspace : Workspace) (source : ProjectFile)
    (path : TrackedUnityFilePath) :
    Guarded (BackingUp path workspace) (fun _ => True)
      (do
        createPayloadParent context (backupPath path)
        match ← Durable.attempt (createPayloadFile context (backupPath path)) with
        | .ok () => do
            Durable.write fun workspace => workspace.writePayload context (backupPath path)
              source.content
            Durable.write fun workspace => workspace.setPayloadTime (backupPath path)
              source.modified
            return path
        | .error error => Durable.lift (.error (mapDestinationExists path error)) :
        TransactionM TrackedUnityFilePath)
      fun found state => found = path ∧
        state.payload.entry (backupPath path) = some (.file source.content) := by
  have halong : ∀ {α : Type} {program : TransactionM α}, WritesAlong PayloadOnly program →
      Guarded (BackingUp path workspace) (fun _ => True) program fun _ _ => True :=
    fun hwrites => hwrites.backingUp.guarded (fun _ _ hstate _ hafter => trans_of _ hstate hafter)
      fun _ _ _ _ _ _ => trivial
  refine .bind (halong createPayloadParent_payloadOnly) fun _ => ?_
  refine .bind (halong createPayloadFile_payloadOnly).attempt_any ?_
  rintro (error | ⟨⟨⟩⟩)
  · exact .fail
  refine .bind (m := fun _ state =>
    state.payload.entry (backupPath path) = some (.file source.content)) (.write ?_) fun _ => ?_
  · exact fun state hstate _ => ⟨trans_of _ hstate backingUp_writePayload, FileTree.entry_put_self⟩
  · refine .bind (m := fun _ state =>
      state.payload.entry (backupPath path) = some (.file source.content)) (.write ?_) fun _ => ?_
    · exact fun state hstate hfile => ⟨trans_of _ hstate backingUp_setPayloadTime, hfile⟩
    · exact .pure fun _ _ hfile => ⟨rfl, hfile⟩

/-- The files that go, some of which are in the backup and some gone. -/
structure BackingOff (plan : OperationPlan) (before : ProjectFiles)
    (kept gone : List FileOperation) (workspace : Workspace) : Prop where
  there : ∀ other ∈ plan.backedUp, BackedUpOrThere before other workspace
  kept : ∀ other ∈ kept, Kept before workspace.payload other.path.segments
  gone : ∀ other ∈ gone, workspace.project.entry other.path.segments = none

theorem Vacates.stays_none {path other : Path} (h : Vacates path workspace after)
    (hother : ¬ ToolPath other) (hnone : workspace.project.entry other = none) :
    after.project.entry other = none := by
  by_cases hstarts : path <+: other
  · exact (h.inside other hother hstarts).elim id fun hsame => hsame.trans hnone
  · exact (h.outside other hother hstarts).trans hnone

section Batch

variable {kind : OperationPlanKind} {kept gone batch : List FileOperation}
variable (hfits : PlanFits context plan before) (hgone : gone ⊆ plan.backedUp)
include hfits

theorem backupProjectFileDeferred_guarded (hmem : operation ∈ plan.backedUp) :
    Guarded (Undergoing context plan before True journal) (BackingOff plan before kept gone)
      (backupProjectFileDeferred context kind operation)
      fun found state => found = operation.path ∧
        BackingOff plan before (operation :: kept) gone state := by
  rcases mem_backedUp.mp hmem with ⟨hplan, -⟩
  refine .bind guardDiscard_guarded fun _ => ?_
  refine .lift_bind fun expectedHash _ => .lift_bind fun expectedSize _ => ?_
  refine .inspect_bind fun source => .ite (fun _ => .fail) fun _ => .lift_bind fun _ _ => ?_
  apply Guarded.of_state
  rintro workspace hstate ⟨hheld, hsource⟩
  have hfile := Workspace.entry_of_openFile hsource
  have hthere := (hheld.there operation hmem).resolve_right fun hgone => by
    rw [hfile] at hgone
    exact absurd hgone.2 (Option.some_ne_none _)
  apply CrashTriple.weaken (writeBackup_guarded workspace source operation.path)
  · rintro _ ⟨-, rfl⟩
    exact ⟨refl_of _ _, trivial⟩
  · rintro _ after ⟨hafter, rfl, hbackup⟩
    have hkept : Kept before after.payload operation.path.segments := by
      intro file hbefore
      rw [← hthere, hfile, Option.some.injEq, TreeEntry.file.injEq] at hbefore
      rw [← hbefore]
      exact hbackup
    refine ⟨hstate.backingUp hafter hthere, rfl, fun other hother => ?_, ?_, fun other hother => ?_⟩
    · exact (hheld.there other hother).backingUp hfits hplan (mem_backedUp.mp hother).1 hafter hthere
    · rw [List.forall_mem_cons]
      refine ⟨hkept, fun other hother file hbefore => ?_⟩
      by_cases hself : other.path.segments = operation.path.segments
      · rw [hself] at hbefore ⊢
        exact hkept file hbefore
      · exact hafter.backups _ _ hself (hheld.kept other hother file hbefore)
    · rw [hafter.project]
      exact hheld.gone other hother
  · exact fun _ _ hafter => hstate.backingUp hafter hthere
  · exact fun _ hafter => hstate.backingUp hafter hthere

variable (hplain : ∀ files path attempt, PlainName (context.projectUuid files path attempt))
include hgone hplain

theorem removeDeferredBackupSource_guarded (hmem : operation ∈ plan.backedUp)
    (hkept : operation ∈ kept) :
    Guarded (Undergoing context plan before True journal) (BackingOff plan before kept gone)
      (removeDeferredBackupSource context kind operation.path)
      fun _ => BackingOff plan before kept (operation :: gone) := by
  rcases mem_backedUp.mp hmem with ⟨hplan, hback⟩
  have hown := hfits.own operation hplan
  refine .bind guardDiscard_guarded fun _ => ?_
  refine .bind (m := fun _ => BackingOff plan before kept gone) (.inspect fun _ _ _ _ h => h)
    fun _ => ?_
  refine .bind (m := fun _ => BackingOff plan before kept (operation :: gone)) ?_
    fun _ => guardDiscard_guarded
  apply guarded_of_triple (Vacates operation.path.segments)
    fun _ after => after.project.entry operation.path.segments = none
  · intro workspace _ _
    exact (unlinkProjectFile_triple hplain operation.path.segments_ne_nil workspace).weaken
      (fun _ h => h) (fun _ _ h => ⟨h.1, h.2 hown⟩) (fun _ _ h => h) fun _ h => h
  · intro workspace after hstate hheld hafter
    apply hstate.vacates hafter
    intro other hother hstarts hentry
    have hself : other = operation.path.segments := by
      by_contra hne
      have hdirectory := ProjectFiles.entry_above hentry hstarts hne
      rcases hheld.there operation hmem with hsame | ⟨-, hnone⟩
      · rcases hfits.backedUp hplan hback with ⟨file, hfile, -⟩
        rw [hsame, hfile] at hdirectory
        cases hdirectory
      · rw [hnone] at hdirectory
        cases hdirectory
    rw [hself]
    exact ⟨trivial, Or.inr (Or.inl ⟨operation, hplan, hback, rfl⟩), hheld.kept operation hkept⟩
  · intro _ workspace after _ hheld hafter hnone
    refine ⟨fun other hother => ?_, fun other hother => ?_, ?_⟩
    · rcases mem_backedUp.mp hother with ⟨hotherPlan, hotherBack⟩
      have hotherOwn := hfits.own other hotherPlan
      rcases hheld.there other hother with hsame | ⟨hotherKept, hotherNone⟩
      · by_cases hstarts : operation.path.segments <+: other.path.segments
        · rw [hfits.backedUp_apart hplan hback hotherPlan hotherBack hstarts]
          refine Or.inr ⟨?_, hnone⟩
          rw [hafter.payload]
          exact hheld.kept operation hkept
        · exact Or.inl ((hafter.outside _ hotherOwn hstarts).trans hsame)
      · exact Or.inr ⟨by rwa [hafter.payload], hafter.stays_none hotherOwn hotherNone⟩
    · rw [hafter.payload]
      exact hheld.kept other hother
    · rw [List.forall_mem_cons]
      refine ⟨hnone, fun other hother => hafter.stays_none ?_ (hheld.gone other hother)⟩
      exact hfits.own other (mem_backedUp.mp (hgone hother)).1

theorem backupBatch_guarded (hbatch : batch ⊆ plan.backedUp) :
    Guarded (Undergoing context plan before True journal) (BackingOff plan before [] gone)
      (backupBatch context kind batch)
      fun _ state => BackingOff plan before [] gone state ∧
        ∀ operation ∈ batch, state.project.entry operation.path.segments = none := by
  refine .bind (.mapM_each (fun operation state => Kept before state.payload operation.path.segments)
    FileOperation.path fun front operation rest heq => ?_) fun sources => .known fun hsources => ?_
  · have hmem : operation ∈ plan.backedUp := hbatch (by rw [heq]; simp)
    apply (backupProjectFileDeferred_guarded hfits hmem).weaken
    · exact fun state _ hstate => ⟨hstate.1.there, hstate.2, hstate.1.gone⟩
    · rintro found state - ⟨rfl, hheld⟩
      rcases List.forall_mem_cons.mp hheld.kept with ⟨hkept, hfront⟩
      exact ⟨rfl, ⟨hheld.there, List.forall_mem_nil _, hheld.gone⟩, hkept, hfront⟩
  · subst hsources
    have hremove : Guarded (Undergoing context plan before True journal)
        (BackingOff plan before batch gone)
        ((batch.map FileOperation.path).forM (removeDeferredBackupSource context kind))
        fun _ state => BackingOff plan before batch gone state ∧
          ∀ path ∈ batch.map FileOperation.path, state.project.entry path.segments = none := by
      apply Guarded.forM_each fun (path : TrackedUnityFilePath) (state : Workspace) =>
        state.project.entry path.segments = none
      intro front path rest heq
      rcases List.map_eq_append_iff.mp heq with ⟨first, others, rfl, rfl, hothers⟩
      rcases List.map_eq_cons_iff.mp hothers with ⟨operation, last, rfl, rfl, -⟩
      have hmem : operation ∈ first ++ operation :: last := by simp
      have hgone' : first ++ gone ⊆ plan.backedUp :=
        List.append_subset.mpr ⟨List.Subset.trans (List.subset_append_left _ _) hbatch, hgone⟩
      apply (removeDeferredBackupSource_guarded hfits hgone' hplain (hbatch hmem) hmem).weaken
      · intro state _ hstate
        refine ⟨hstate.1.there, hstate.1.kept, ?_⟩
        rw [List.forall_mem_append]
        exact ⟨fun other hother => hstate.2 other.path (List.mem_map_of_mem hother),
          hstate.1.gone⟩
      · intro _ state _ hstate
        rcases List.forall_mem_cons.mp hstate.gone with ⟨hnone, hrest⟩
        rw [List.forall_mem_append] at hrest
        refine ⟨⟨hstate.there, hstate.kept, hrest.2⟩, hnone, ?_⟩
        rw [List.forall_mem_map]
        exact hrest.1
    apply hremove.weaken
    · exact fun state _ hstate => ⟨hstate.1.there, hstate.2, hstate.1.gone⟩
    · intro _ state _ hstate
      exact ⟨⟨hstate.1.there, List.forall_mem_nil _, hstate.1.gone⟩, fun operation hmem =>
        hstate.2 _ (List.mem_map_of_mem hmem)⟩

omit hgone in
/-- Every file that goes is backed up and gone. -/
theorem backups_guarded :
    Guarded (Undergoing context plan before True journal) (BackingOff plan before [] [])
      ((chunks transactionBackupFileBatchSize plan.backedUp).forM (backupBatch context kind))
      fun _ state => BackingOff plan before [] [] state ∧ ∀ operation ∈ plan.backedUp,
        state.project.entry operation.path.segments = none := by
  have hchunk : ∀ batch ∈ chunks transactionBackupFileBatchSize plan.backedUp,
      batch ⊆ plan.backedUp := by
    intro batch hbatch operation hmem
    rw [← flatten_chunks transactionBackupFileBatchSize plan.backedUp]
    exact List.mem_flatten_of_mem hbatch hmem
  have hloop : Guarded (Undergoing context plan before True journal)
      (BackingOff plan before [] [])
      ((chunks transactionBackupFileBatchSize plan.backedUp).forM (backupBatch context kind))
      fun _ state => BackingOff plan before [] [] state ∧
        ∀ batch ∈ chunks transactionBackupFileBatchSize plan.backedUp, ∀ operation ∈ batch,
          state.project.entry operation.path.segments = none := by
    apply Guarded.forM_each fun (batch : List FileOperation) (state : Workspace) =>
      ∀ operation ∈ batch, state.project.entry operation.path.segments = none
    intro front batch rest heq
    have hgone : front.flatten ⊆ plan.backedUp := by
      intro operation hmem
      rcases List.mem_flatten.mp hmem with ⟨other, hother, hin⟩
      exact hchunk other (by rw [heq]; exact List.mem_append_left _ hother) hin
    apply (backupBatch_guarded hfits hgone hplain
      (hchunk batch (by rw [heq]; simp))).weaken
    · intro state _ hstate
      refine ⟨hstate.1.there, hstate.1.kept, fun operation hmem => ?_⟩
      rcases List.mem_flatten.mp hmem with ⟨other, hother, hin⟩
      exact hstate.2 other hother operation hin
    · intro _ state _ hstate
      exact ⟨⟨hstate.1.there, hstate.1.kept, List.forall_mem_nil _⟩, hstate.2,
        fun other hother operation hin =>
          hstate.1.gone operation (List.mem_flatten_of_mem hother hin)⟩
  apply hloop.implies
  intro _ state _ hstate
  refine ⟨hstate.1, fun operation hmem => ?_⟩
  rw [← flatten_chunks transactionBackupFileBatchSize plan.backedUp] at hmem
  rcases List.mem_flatten.mp hmem with ⟨batch, hbatch, hin⟩
  exact hstate.2 batch hbatch operation hin

end Batch

/-! Directories. -/

/-- All backups are there, and no file that the plan deletes. -/
structure CarryingOut (plan : OperationPlan) (before : ProjectFiles) (workspace : Workspace) :
    Prop where
  kept : ∀ operation ∈ plan.backedUp, Kept before workspace.payload operation.path.segments
  noFile : ∀ operation ∈ plan.operations, operation.operationType = .delete →
    ∀ file, workspace.project.entry operation.path.segments ≠ some (.file file)

theorem BackingOff.carryingOut (hfits : PlanFits context plan before)
    (h : BackingOff plan before [] [] workspace)
    (hgone : ∀ operation ∈ plan.backedUp,
      workspace.project.entry operation.path.segments = none) :
    CarryingOut plan before workspace where
  kept operation hmem := by
    rcases h.there operation hmem with hsame | ⟨hkept, -⟩
    · rcases mem_backedUp.mp hmem with ⟨hplan, hback⟩
      rcases hfits.backedUp hplan hback with ⟨file, hfile, -⟩
      rw [hgone operation hmem, hfile] at hsame
      cases hsame
    · exact hkept
  noFile operation hmem htype file := by
    rw [hgone operation (mem_backedUp.mpr ⟨hmem, by simp [FileOperation.isBackedUp, htype]⟩)]
    exact (Option.some_ne_none _).symm

section Directories

variable (hfits : PlanFits context plan before)
include hfits

theorem removeDirectories_guarded
    (hplain : ∀ files path attempt, PlainName (context.projectUuid files path attempt)) :
    Guarded (Undergoing context plan before True journal) (CarryingOut plan before)
      (plan.directoriesToRemove.forM (removeProjectDirectory context))
      fun _ => CarryingOut plan before := by
  apply Guarded.forM fun _ => CarryingOut plan before
  intro directory rest hsuffix
  have hmem : directory ∈ plan.directoriesToRemove := hsuffix.subset List.mem_cons_self
  apply guarded_of_triple (Vacates directory.segments) fun _ _ => True
  · intro workspace _ _
    exact (removeProjectDirectory_triple hplain directory workspace).weaken (fun _ h => h)
      (fun _ _ h => ⟨h.1, trivial⟩) (fun _ _ h => h) fun _ h => h
  · intro workspace after hstate hheld hafter
    apply hstate.vacates hafter
    intro other hother hstarts _
    by_cases hentry : before.entry other = none
    · exact ⟨trivial, Or.inl hentry, kept_of_not_file fun file hfile => by
        rw [hentry] at hfile
        cases hfile⟩
    rcases hfits.below directory hmem other hstarts hentry with
      ⟨removed, hremoved, rfl⟩ | ⟨operation, hplan, hback, rfl⟩
    · refine ⟨trivial, Or.inr (Or.inr ⟨removed, hremoved, rfl⟩), kept_of_not_file ?_⟩
      intro file hfile
      rcases hfits.removed removed hremoved with hdirectory | ⟨top, htop, hne, hlink⟩
      · rw [hdirectory] at hfile
        cases hfile
      · exact hentry (ProjectFiles.entry_eq_none_below (by rw [hlink]; simp) htop hne.symm)
    · exact ⟨trivial, Or.inr (Or.inl ⟨operation, hplan, hback, rfl⟩),
        hheld.kept operation (mem_backedUp.mpr ⟨hplan, hback⟩)⟩
  · intro _ workspace after _ hheld hafter _
    refine ⟨by rw [hafter.payload]; exact hheld.kept, fun operation hplan htype file hfile => ?_⟩
    have hown := hfits.own operation hplan
    by_cases hstarts : directory.segments <+: operation.path.segments
    · rcases hafter.inside _ hown hstarts with hnone | hsame
      · rw [hnone] at hfile
        cases hfile
      · exact hheld.noFile operation hplan htype file (hsame ▸ hfile)
    · exact hheld.noFile operation hplan htype file (hafter.outside _ hown hstarts ▸ hfile)

omit hfits in
theorem CarryingOut.put (h : CarryingOut plan before workspace) {path : Path}
    {value : TreeEntry ProjectFile}
    (hvalue : ∀ operation ∈ plan.operations, operation.operationType = .delete →
      operation.path.segments = path → ∀ file, value ≠ .file file) :
    CarryingOut plan before (workspace.putProject path value) where
  kept := h.kept
  noFile operation hmem htype file := by
    change (workspace.project.put path value).entry _ ≠ _
    by_cases hself : operation.path.segments = path
    · by_cases hreceives : workspace.project.Receives path
      · rw [ProjectFiles.entry_put hreceives, if_pos hself]
        exact fun heq => hvalue operation hmem htype hself file (Option.some.inj heq)
      · rw [ProjectFiles.put, dif_neg hreceives]
        exact h.noFile operation hmem htype file
    · rw [ProjectFiles.entry_put_of_ne hself]
      exact h.noFile operation hmem htype file

omit hfits in
theorem createDirectories_guarded :
    Guarded (Undergoing context plan before True journal) (CarryingOut plan before)
      (plan.directoriesToCreate.forM (createProjectDirectory context))
      fun _ => CarryingOut plan before := by
  apply Guarded.forM fun _ => CarryingOut plan before
  intro directory rest hsuffix
  have hmem : directory ∈ plan.directoriesToCreate := hsuffix.subset List.mem_cons_self
  refine .bind (m := fun _ => CarryingOut plan before) (.inspect fun _ _ _ _ h => h) fun _ => ?_
  refine .inspect_bind fun occupied => .ite (fun _ => .fail) fun hfree => .write ?_
  rintro state hstate ⟨hheld, hoccupied⟩
  replace hfree := Workspace.entry_of_unoccupied hoccupied hfree
  refine ⟨hstate.put fun hown => ?_, hheld.put fun _ _ _ _ _ heq => by cases heq⟩
  have hstands := hstate.between _ hown
  rw [hfree] at hstands
  rcases hstands.vacant with ⟨hleaves, hkept, -⟩
  exact .made trivial hleaves hkept (Or.inl ⟨directory, hmem, rfl⟩)

end Directories

end Backups

end CheckPo
