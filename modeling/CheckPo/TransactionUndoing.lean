/-
The first half of a rollback: files that the transaction published are kept aside and go, and
so do the directories that it made; the directories that it removed come back.
-/
import CheckPo.TransactionOperations

namespace CheckPo

section Undoing

variable {context : TransactionContext} {plan : OperationPlan} {before : ProjectFiles}
variable {applied : Prop} {journal : TransactionJournal} {workspace after : Workspace}
variable {operation : FileOperation} {directory : TrackedUnityFilePath}

/-! Copies that are kept. -/

theorem headOf_recoveryAfterCopy (hash : ObjectId) :
    (recoveryAfterCopy hash).head? ≠ some "backup" := by
  rw [recoveryAfterCopy, List.head?_cons]
  decide

theorem fillPreserved_payloadOnly {expectedHash hash : ObjectId} {content : Bytes} {name : String} :
    WritesAlong PayloadOnly (fillPreserved context expectedHash content ["recovery-after", name]
      (recoveryAfterCopy hash)) := by
  have htemporary : (["recovery-after", name] : Path).head? ≠ some "backup" := by
    rw [List.head?_cons]
    decide
  refine .bind (writePayload_payloadOnly htemporary) fun _ => .ite .lift ?_
  refine .bind .inspect fun occupied => .ite .lift (payloadOnly_write ?_ ?_ ?_)
  · exact fun _ => rfl
  · exact fun _ => rfl
  · exact fun _ => .move htemporary (List.cons_ne_nil _ _) (headOf_recoveryAfterCopy hash)
      (List.cons_ne_nil _ _)

theorem preserveAfterFileForRecovery_payloadOnly {source : Path} {expectedHash : ObjectId} :
    WritesAlong PayloadOnly (preserveAfterFileForRecovery context source expectedHash) := by
  have hunlink {name : String} :
      WritesAlong PayloadOnly (unlinkPayloadFile context ["recovery-after", name]) :=
    unlinkPayloadFile_payloadOnly (by decide) (List.cons_ne_nil _ _)
  refine .bind createPayloadParent_payloadOnly fun _ => .bind .inspect fun found => ?_
  split
  · exact .ite .lift .pure
  · refine .bind .inspect fun leftover => .bind ?_ fun _ => .bind .inspect fun file => .ite .lift ?_
    · split
      · exact hunlink
      · exact .pure
    · refine .bind createPayloadFile_payloadOnly fun _ =>
        .bind (.attempt fillPreserved_payloadOnly) fun result => ?_
      rcases result with error | _
      · exact .bind (.attempt hunlink) fun _ => .lift
      · exact .pure
  · exact .lift
  · exact .lift

section Rounds

variable (hplain : ∀ files path attempt, PlainName (context.projectUuid files path attempt))
include hplain

/-! Leftovers. -/

theorem cleanupMaterializationTemp_ownOnly {transactionId : String} :
    WritesAlong OwnOnly (cleanupMaterializationTemp context transactionId operation) := by
  refine .bind .inspect fun found => ?_
  split
  · exact .pure
  · exact .pure
  · exact .lift
  · exact unlinkProjectFile_ownOnly hplain (toolPath_transactionMaterializationTempPath _ _ _)
  · exact .lift

omit hplain in
theorem eq_of_existingHeldAfterFile {path : TrackedUnityFilePath} {transactionId : String}
    {expectedHash : ObjectId} {held : Path}
    (h : workspace.existingHeldAfterFile context path transactionId expectedHash = .ok (some held)) :
    held = recoveryAfterPath context.blake3 path transactionId := by
  simp only [Workspace.existingHeldAfterFile] at h
  split at h
  · cases h
  · cases h
  · cases h
  · rw [except_guard_eq_ok, Except.ok.injEq, Option.some.injEq] at h
    exact h.2.symm
  · cases h

theorem removeExistingHeldAfterFile_guarded {path : TrackedUnityFilePath} {transactionId : String}
    {expectedHash : ObjectId} :
    Guarded (Undergoing context plan before applied journal) (fun _ => True)
      (removeExistingHeldAfterFile context path transactionId expectedHash) fun _ _ => True := by
  refine .inspect_fact (fun found => ∀ held, found = some held →
    held = recoveryAfterPath context.blake3 path transactionId) ?_ fun found hfound => ?_
  · rintro _ state - - hread held rfl
    exact eq_of_existingHeldAfterFile hread
  rcases found with _ | held
  · exact .pure fun _ _ h => h
  · obtain rfl := hfound held rfl
    refine .bind (preserveAfterFileForRecovery_payloadOnly.undergoing fun _ _ _ _ h _ => h)
      fun _ => ?_
    refine .bind (m := fun _ _ => True) (.inspect fun _ _ _ _ h => h) fun file =>
      .ite (fun _ => .fail) fun _ => ?_
    exact (unlinkProjectFile_ownOnly hplain (toolPath_recoveryAfterPath _ _ _)).guarded
      (fun _ _ hstate _ hafter => hstate.ownOnly hafter) fun _ _ _ _ h _ => h

/-! Files that came. -/

section Fits

variable (hfits : PlanFits context plan before)
include hfits

omit hplain in
/-- A file that an operation published goes under a name of the program. -/
theorem Undergoing.published_goes (h : Undergoing context plan before applied journal workspace)
    (hmem : operation ∈ plan.operations) (hstaged : operation.isStaged = true) {file : ProjectFile}
    (hfile : workspace.project.entry operation.path.segments = some (.file file))
    (hhash : operation.afterHash = some (context.blake3 file.content))
    (hafter : Vacates operation.path.segments workspace after) :
    Undergoing context plan before applied journal after := by
  apply h.vacates hafter
  intro other hother hstarts hentry
  have hself : other = operation.path.segments := by
    by_contra hne
    exact hentry (ProjectFiles.entry_eq_none_below (by rw [hfile]; simp) hstarts hne)
  subst hself
  have hstands := h.between _ hother
  rw [hfile] at hstands
  rcases hstands.restoredFile hfits hmem hstaged hhash with ⟨happlied, hkept⟩
  exact ⟨happlied, hfits.leaves hmem hstaged, hkept⟩

theorem removeAfterFileForRecovery_guarded (hmem : operation ∈ plan.operations)
    (hstaged : operation.isStaged = true) {transactionId : String} {expectedHash : ObjectId}
    (hhash : operation.afterHash = some expectedHash) :
    Guarded (Undergoing context plan before applied journal) (fun _ => True)
      (removeAfterFileForRecovery context operation.path transactionId expectedHash)
      fun _ _ => True := by
  have htool := toolPath_recoveryAfterPath context.blake3 operation.path transactionId
  refine .bind (m := fun _ _ => True) (.inspect fun _ _ _ _ h => h) fun found => ?_
  rcases found with _ | held
  · refine .bind (preserveAfterFileForRecovery_payloadOnly.undergoing fun _ _ _ _ h _ => h)
      fun _ => ?_
    refine .inspect_bind fun file => .ite (fun _ => .fail) fun hcontent => ?_
    rw [not_not] at hcontent
    refine .bind (m := fun _ _ => True) ?_ fun _ =>
      (unlinkProjectFile_ownOnly hplain htool).guarded
        (fun _ _ hstate _ hafter => hstate.ownOnly hafter) fun _ _ _ _ h _ => h
    refine .inspect_bind fun occupied => .ite (fun _ => .fail) fun _ => .write ?_
    rintro state hstate ⟨⟨-, hread⟩, -⟩
    exact ⟨hstate.published_goes hfits hmem hstaged (Workspace.entry_of_openFile hread)
      (by rw [hhash, hcontent]) (vacates_move htool), trivial⟩
  · exact .fail

/-- A file that was restored or replaced. -/
theorem rollbackAfterFile_guarded (hmem : operation ∈ plan.operations)
    (hstaged : operation.isStaged = true) {beforePaths : Finset TrackedUnityFilePath} :
    Guarded (Undergoing context plan before applied journal) (fun _ => True)
      (rollbackAfterFile context journal beforePaths operation) fun _ _ => True := by
  refine .bind guardDiscard_guarded fun _ => ?_
  split
  · exact .pure fun _ _ h => h
  · next afterHash hhash =>
      refine .bind (removeExistingHeldAfterFile_guarded hplain) fun _ => ?_
      refine .bind (m := fun _ _ => True) (.inspect fun _ _ _ _ h => h) fun current => ?_
      refine .bind (m := fun _ _ => True) ?_ fun _ => guardDiscard_guarded
      rcases current with _ | current
      · exact .pure fun _ _ h => h
      · refine .ite (fun _ => ?_) fun _ => .ite (fun _ => .pure fun _ _ h => h) fun _ => .fail
        exact removeAfterFileForRecovery_guarded hplain hfits hmem hstaged hhash

/-! Directories that came. -/

omit hfits hplain in
/-- No directory stands where the transaction made one. -/
def CreatedGone (workspace : Workspace) (directory : TrackedUnityFilePath) : Prop :=
  ¬ ToolPath directory.segments →
    workspace.project.entry directory.segments ≠ some .directory

omit hfits hplain in
theorem CreatedGone.vacates {path : Path} (h : CreatedGone workspace directory)
    (hafter : Vacates path workspace after) : CreatedGone after directory := by
  intro hown hentry
  by_cases hstarts : path <+: directory.segments
  · rcases hafter.inside _ hown hstarts with hnone | hsame
    · rw [hnone] at hentry
      cases hentry
    · exact h hown (hsame ▸ hentry)
  · exact h hown (hafter.outside _ hown hstarts ▸ hentry)

omit hfits hplain in
variable (context) in
theorem createdGone_of_symlinkMetadata
    (h : (workspace.workingTree context).symlinkMetadata directory.segments ≠ .ok .directory) :
    CreatedGone workspace directory :=
  fun _ hentry => h (WorkingTree.symlinkMetadata_entry hentry)

omit hplain in
/-- A directory that the transaction made, and what may be in it, may go. -/
theorem Undergoing.created_goes (h : Undergoing context plan before applied journal workspace)
    (hmem : directory ∈ plan.directoriesToCreate)
    (hfound : (workspace.workingTree context).symlinkMetadata directory.segments = .ok .directory)
    (hafter : Vacates directory.segments workspace after) :
    Undergoing context plan before applied journal after := by
  apply h.vacates hafter
  intro other hother hstarts hentry
  have hdirectory : workspace.project.entry directory.segments = some .directory := by
    by_cases hself : other = directory.segments
    · rw [hself] at hentry
      rcases Option.ne_none_iff_exists'.mp hentry with ⟨value, hvalue⟩
      have hsame : (workspace.workingTree context).symlinkMetadata directory.segments = .ok value :=
        WorkingTree.symlinkMetadata_entry hvalue
      rw [hfound, Except.ok.injEq] at hsame
      rw [hvalue, hsame]
    · exact ProjectFiles.entry_above hentry hstarts hself
  have hstands := h.between _ (ToolPath.not_start hother hstarts)
  rw [hdirectory] at hstands
  rcases hstands.created hfits hmem with ⟨happlied, hleaves, hkept⟩
  by_cases hself : other = directory.segments
  · rw [hself]
    exact ⟨happlied, hleaves, hkept⟩
  · have hnone : before.entry other = none :=
      ProjectFiles.entry_eq_none_below (hfits.created directory hmem) hstarts hself
    exact ⟨happlied, Or.inl hnone, kept_of_not_file fun file hfile => by
      rw [hnone] at hfile
      cases hfile⟩

theorem rollbackCreatedDirectory_guarded (hmem : directory ∈ plan.directoriesToCreate)
    {beforePaths : Finset TrackedUnityFilePath} {done : List TrackedUnityFilePath} :
    Guarded (Undergoing context plan before applied journal)
      (fun state => ∀ other ∈ done, CreatedGone state other)
      (rollbackCreatedDirectory context beforePaths directory)
      fun _ state => CreatedGone state directory ∧ ∀ other ∈ done, CreatedGone state other := by
  refine .inspect_bind fun found => ?_
  have hreturn (hne : found ≠ .ok .directory) :
      Guarded (Undergoing context plan before applied journal)
        (fun state => (∀ other ∈ done, CreatedGone state other) ∧
          (.ok ((state.workingTree context).symlinkMetadata directory.segments) :
            CheckPoResult (Except LookupError (TreeEntry ProjectFile))) = .ok found)
        (pure () : TransactionM Unit)
        fun _ state => CreatedGone state directory ∧ ∀ other ∈ done, CreatedGone state other := by
    refine .pure fun state _ hstate => ⟨createdGone_of_symlinkMetadata context ?_, hstate.1⟩
    rw [Except.ok.inj hstate.2]
    exact hne
  split
  · apply guarded_of_triple (Vacates directory.segments)
      fun _ state => state.project.entry directory.segments = none
    · exact fun workspace _ _ => removeProjectDirectory_triple hplain directory workspace
    · exact fun workspace after hstate hpre hafter =>
        hstate.created_goes hfits hmem (Except.ok.inj hpre.2) hafter
    · intro _ workspace after _ hpre hafter hnone
      refine ⟨fun _ => ?_, fun other hother => (hpre.1 other hother).vacates hafter⟩
      rw [hnone]
      exact (Option.some_ne_none _).symm
  · exact .ite (fun _ => hreturn (by simp)) fun _ => .fail
  · exact .fail
  · exact hreturn (by simp)
  · exact hreturn (by simp)
  · exact .fail

/-! Directories that went. -/

omit hplain in
/-- A link remains; no plan removes one. -/
theorem Undergoing.link_remains (h : Undergoing context plan before applied journal workspace)
    {path : Path} (hown : ¬ ToolPath path) (hlink : before.entry path = some .link) :
    workspace.project.entry path = some .link := by
  have hnot : ¬ Leaves plan before path := by
    rintro (hnone | ⟨operation, hmem, hbacked, rfl⟩ | ⟨directory, hmem, rfl⟩)
    · rw [hlink] at hnone
      cases hnone
    · rcases hfits.backedUp hmem hbacked with ⟨file, hfile, -⟩
      rw [hlink] at hfile
      cases hfile
    · rcases hfits.removed directory hmem with hdirectory | ⟨top, hstarts, hne, htop⟩
      · rw [hlink] at hdirectory
        cases hdirectory
      · rw [ProjectFiles.entry_eq_none_below (by rw [htop]; simp) hstarts hne.symm] at hlink
        cases hlink
  have hstands := h.between path hown
  generalize workspace.project.entry path = now at hstands ⊢
  cases hstands with
  | same hsame =>
      rw [hlink] at hsame
      rcases now with _ | ⟨file | _ | _ | _⟩ <;>
        simp only [Option.map_some, Option.map_none, seen, reduceCtorEq, Option.some.injEq] at hsame
      rfl
  | implied hbefore =>
      rw [hlink] at hbefore
      cases hbefore
  | retimed _ _ _ _ hbefore =>
      rw [hlink] at hbefore
      cases hbefore
  | gone _ hleaves _ => exact absurd hleaves hnot
  | came _ hmem hstaged hpath _ _ => exact absurd (hpath ▸ hfits.leaves hmem hstaged) hnot
  | made _ hleaves _ _ => exact absurd hleaves hnot

/-- The directory is there again. -/
def RemovedBack (workspace : Workspace) (directory : TrackedUnityFilePath) : Prop :=
  ¬ ToolPath directory.segments →
    workspace.project.entry directory.segments = some .directory

omit hplain in
/-- Where a directory that went can be made, it was one. -/
theorem Undergoing.removed_was (h : Undergoing context plan before applied journal workspace)
    (hmem : directory ∈ plan.directoriesToRemove) (hown : ¬ ToolPath directory.segments)
    (hparent : workspace.project.entry directory.segments.dropLast = some .directory) :
    before.entry directory.segments = some .directory := by
  rcases hfits.removed directory hmem with hdirectory | ⟨top, hstarts, hne, hlink⟩
  · exact hdirectory
  have hremains := h.link_remains hfits (ToolPath.not_start hown hstarts) hlink
  have habove : top <+: directory.segments.dropLast := by
    rcases hstarts with ⟨rest, hrest⟩
    have hnil : rest ≠ [] := by
      rintro rfl
      exact hne ((List.append_nil top).symm.trans hrest)
    rw [← hrest, List.dropLast_append_of_ne_nil hnil]
    exact List.prefix_append _ _
  by_cases hself : directory.segments.dropLast = top
  · rw [hself, hremains] at hparent
    cases hparent
  · rw [ProjectFiles.entry_above (by rw [hparent]; exact Option.some_ne_none _) habove hself]
      at hremains
    cases hremains

omit hplain in
theorem ensureProjectDirectoryExistsForRecovery_guarded (hmem : directory ∈ plan.directoriesToRemove)
    {done : List TrackedUnityFilePath} :
    Guarded (Undergoing context plan before applied journal)
      (fun state => (∀ other ∈ plan.directoriesToCreate, CreatedGone state other) ∧
        ∀ other ∈ done, RemovedBack state other)
      (ensureProjectDirectoryExistsForRecovery context directory)
      fun _ state => (∀ other ∈ plan.directoriesToCreate, CreatedGone state other) ∧
        RemovedBack state directory ∧ ∀ other ∈ done, RemovedBack state other := by
  refine .inspect_bind fun found => ?_
  split
  · refine .pure fun state _ hstate => ⟨hstate.1.1, fun _ => ?_, hstate.1.2⟩
    exact Workspace.entry_of_openProjectDirectory (Except.ok.inj hstate.2)
  · refine .inspect_bind fun _ => .inspect_bind fun occupied => .ite (fun _ => .fail)
      fun hoccupied => .write ?_
    rintro state hstate ⟨⟨⟨⟨hcreated, hremoved⟩, -⟩, hopen⟩, hread⟩
    replace hoccupied := Workspace.entry_of_unoccupied hread hoccupied
    have hparent := Workspace.entry_of_openProjectDirectory hopen
    have hreceives : state.project.Receives directory.segments := by
      refine ⟨directory.segments_ne_nil, hparent, directory.plainName_getLastD_segments, ?_⟩
      change state.project.entry _ ≠ _
      rw [hoccupied]
      exact (Option.some_ne_none _).symm
    have hentry : ∀ other, (state.putProject directory.segments .directory).project.entry other =
        if other = directory.segments then some .directory else state.project.entry other :=
      fun other => ProjectFiles.entry_put hreceives
    refine ⟨hstate.put fun hown => ?_, fun other hother hown hthere => ?_, fun _ => ?_,
      fun other hother hown => ?_⟩
    · have hwas := hstate.removed_was hfits hmem hown hparent
      exact .same (by rw [hwas])
    · rw [hentry] at hthere
      by_cases hself : other.segments = directory.segments
      · apply hfits.created other hother
        rw [hself] at hown ⊢
        exact hstate.removed_was hfits hmem hown hparent
      · rw [if_neg hself] at hthere
        exact hcreated other hother hown hthere
    · rw [hentry, if_pos rfl]
    · rw [hentry]
      split
      · rfl
      · exact hremoved other hother hown
  · exact .fail
  · exact .fail

end Fits

end Rounds

end Undoing

end CheckPo
