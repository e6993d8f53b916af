/-
How the operations of a plan publish their files: each leaves at its path what the plan says,
and changes nothing else but that directories above it are made.
-/
import CheckPo.HexIds
import CheckPo.TransactionApplied

namespace CheckPo

/-! Names and texts. -/

theorem plain_toHex (id : Digest32) : '/' ∉ id.toHex.toList := fun h =>
  forall_toHex (p := fun character => character ≠ '/') (by decide) id h rfl

theorem plainName_temporary (id : Digest32) :
    PlainName s!".checkpo-{String.ofList (id.toHex.toList.take 32)}.tmp" := by
  have hshort : (String.ofList (id.toHex.toList.take 32)).toList = id.toHex.toList.take 32 :=
    String.toList_ofList
  change '/' ∉ (".checkpo-" ++ String.ofList (id.toHex.toList.take 32) ++ ".tmp").toList
  rw [String.toList_append, String.toList_append, List.mem_append, List.mem_append]
  rintro ((hslash | hslash) | hslash)
  · exact absurd hslash (by decide)
  · rw [hshort] at hslash
    exact plain_toHex id (List.mem_of_mem_take hslash)
  · exact absurd hslash (by decide)

theorem mem_inits_tail {path top : Path} : top ∈ path.inits.tail ↔ top <+: path ∧ top ≠ [] := by
  rcases path with _ | ⟨name, rest⟩
  · simp
  · rw [List.inits_cons, List.tail_cons, List.mem_map]
    rcases top with _ | ⟨first, others⟩
    · simp
    · simp only [List.mem_inits, List.cons.injEq, List.cons_prefix_cons, ne_eq, reduceCtorEq,
        not_false_eq_true, and_true]
      constructor
      · rintro ⟨found, hfound, rfl, rfl⟩
        exact ⟨rfl, hfound⟩
      · rintro ⟨rfl, hothers⟩
        exact ⟨others, hothers, rfl, rfl⟩

/-- The parent of each start of a path comes before it. -/
theorem dropLast_mem_of_inits {path value : Path} {front rest : List Path}
    (h : path.inits.tail = front ++ value :: rest) : value.dropLast = [] ∨ value.dropLast ∈ front := by
  have hinits : path.inits = ([] :: front) ++ value :: rest := by
    rw [List.cons_append, ← h]
    cases path <;> rfl
  have hget : ∀ index (hindex : index < path.inits.length),
      path.inits[index] = path.take index := fun index hindex => List.getElem_inits path index hindex
  have hvalue : value = path.take (front.length + 1) := by
    rw [← hget (front.length + 1) (by rw [hinits]; simp)]
    simp [hinits]
  have hlength : front.length + 1 ≤ path.length := by
    have hlengths := congrArg List.length hinits
    rw [List.length_inits] at hlengths
    simp only [List.length_append, List.length_cons] at hlengths
    omega
  have hdrop : value.dropLast = path.take front.length := by
    rw [hvalue, List.dropLast_eq_take, List.length_take, List.take_take]
    congr 1
    omega
  rcases front.eq_nil_or_concat with rfl | ⟨others, last, rfl⟩
  · exact Or.inl (by rw [hdrop]; rfl)
  · right
    rw [hdrop, ← hget _ (by rw [hinits]; simp)]
    simp [hinits]

theorem parseMtime_eq_ok {context : TransactionContext} {text : String} {time : Option Timestamp}
    (h : parseMtime context (some text) = .ok time) :
    ∃ given, time = some given ∧ context.parseRfc3339 text = .ok given := by
  rw [parseMtime] at h
  rcases hparse : context.parseRfc3339 text with message | given
  · simp [hparse] at h
  · simp only [hparse, Except.ok.injEq] at h
    exact ⟨given, h.symm, rfl⟩

theorem verifyFileMtime_eq_ok {context : TransactionContext} {modified : Timestamp} {path text : String}
    (h : verifyFileMtime context modified path (some text) = .ok ()) :
    context.canonicalUtc modified = text := by
  by_contra hne
  rw [verifyFileMtime, if_pos hne] at h
  cases h

namespace TrackedUnityFilePath

theorem dropLast_segments_ne_nil (path : TrackedUnityFilePath) : path.segments.dropLast ≠ [] := by
  intro hnil
  have hlength := congrArg List.length hnil
  rw [List.length_dropLast, List.length_nil] at hlength
  have htwo := path.two_le_length_segments
  omega

theorem plainName_getLastD_segments (path : TrackedUnityFilePath) :
    PlainName (path.segments.getLastD "") := by
  apply plainName_of_mem_segments
  rw [List.getLastD_eq_getLast?, List.getLast?_eq_getLast_of_ne_nil path.segments_ne_nil]
  exact List.getLast_mem path.segments_ne_nil

end TrackedUnityFilePath

section Publishing

variable (context : TransactionContext) (plan : OperationPlan) (before : ProjectFiles)

/-- Since a state nothing has changed but a path, and what was missing above it. -/
structure Publishing (journal : TransactionJournal) (path : Path) (start workspace : Workspace) :
    Prop extends Undergoing context plan before True journal workspace where
  others : ∀ other, ¬ ToolPath other → other ≠ path →
    workspace.project.entry other = start.project.entry other ∨
      start.project.entry other = none ∧ workspace.project.entry other = some .directory

variable {context plan before} {journal : TransactionJournal} {path : Path}
variable {start workspace after : Workspace} {operation : FileOperation}

namespace Publishing

theorem refl (h : Undergoing context plan before True journal start) :
    Publishing context plan before journal path start start :=
  ⟨h, fun _ _ _ => Or.inl rfl⟩

theorem ownOnly (h : Publishing context plan before journal path start workspace)
    (hafter : OwnOnly workspace after) :
    Publishing context plan before journal path start after :=
  ⟨h.toUndergoing.ownOnly hafter, fun other hother hne => by
    rw [hafter.project other hother]
    exact h.others other hother hne⟩

theorem payloadOnly (h : Publishing context plan before journal path start workspace)
    (hafter : PayloadOnly workspace after) :
    Publishing context plan before journal path start after :=
  ⟨h.toUndergoing.payloadOnly hafter, fun other hother hne => by
    rw [hafter.project]
    exact h.others other hother hne⟩

/-- The path itself changes. -/
theorem own (h : Publishing context plan before journal path start workspace)
    (hafter : Undergoing context plan before True journal after)
    (hsame : ∀ other, ¬ ToolPath other → other ≠ path →
      after.project.entry other = workspace.project.entry other) :
    Publishing context plan before journal path start after :=
  ⟨hafter, fun other hother hne => by
    rw [hsame other hother hne]
    exact h.others other hother hne⟩

/-- A missing directory above the path is made. -/
theorem put_directory (h : Publishing context plan before journal operation.path.segments start
      workspace) (hmem : operation ∈ plan.operations) (hstaged : operation.isStaged = true)
    (hstarts : path <+: operation.path.segments) (hne : path ≠ operation.path.segments)
    (hfree : workspace.project.entry path = none) :
    Publishing context plan before journal operation.path.segments start
      (workspace.putProject path .directory) := by
  refine ⟨h.toUndergoing.put fun hown => ?_, fun other hother hotherNe => ?_⟩
  · have hstands := h.between path hown
    rw [hfree] at hstands
    rcases hstands.vacant with ⟨hleaves, hkept, -⟩
    exact .made trivial hleaves hkept (Or.inr ⟨operation, hmem, hstaged, hstarts, hne⟩)
  · change (workspace.project.put path .directory).entry other = _ ∨
      _ ∧ (workspace.project.put path .directory).entry other = _
    by_cases hself : other = path
    · subst hself
      by_cases hreceives : workspace.project.Receives other
      · rw [ProjectFiles.entry_put hreceives, if_pos rfl]
        rcases h.others other hother hotherNe with hsame | ⟨-, hdirectory⟩
        · exact Or.inr ⟨hsame.symm.trans hfree, rfl⟩
        · rw [hfree] at hdirectory
          cases hdirectory
      · rw [ProjectFiles.put, dif_neg hreceives]
        exact h.others other hother hotherNe
    · rw [ProjectFiles.entry_put_of_ne hself]
      exact h.others other hother hotherNe

end Publishing

/-- The file that has been staged for an operation. -/
def StagedAt (operation : FileOperation) (content : Bytes) (modified : Timestamp)
    (workspace : Workspace) : Prop :=
  workspace.payload.entry (stagedPath operation.path) = some (.file content) ∧
    workspace.modified (stagedPath operation.path) = modified

section Operation

variable (hmem : operation ∈ plan.operations) (hstaged : operation.isStaged = true)
include hmem hstaged

/-- The directories above a published file are made one below the other. -/
theorem createProjectParent_guarded {content : Bytes} {modified : Timestamp} :
    Guarded (Publishing context plan before journal operation.path.segments start)
      (StagedAt operation content modified) (createProjectParent context operation.path.segments)
      fun _ state => StagedAt operation content modified state ∧
        state.project.entry operation.path.segments.dropLast = some .directory := by
  have hloop : Guarded (Publishing context plan before journal operation.path.segments start)
      (StagedAt operation content modified) (createProjectParent context operation.path.segments)
      fun _ state => StagedAt operation content modified state ∧
        ∀ component ∈ operation.path.segments.dropLast.inits.tail,
          state.project.entry component = some .directory := by
    apply Guarded.forM_each fun (component : Path) (state : Workspace) =>
      state.project.entry component = some .directory
    intro front component rest heq
    have hin : component ∈ operation.path.segments.dropLast.inits.tail := by
      rw [heq]
      simp
    rcases mem_inits_tail.mp hin with ⟨habove, hpos⟩
    have hstarts : component <+: operation.path.segments :=
      habove.trans (List.dropLast_prefix _)
    have hne : component ≠ operation.path.segments := by
      rintro rfl
      have hlength := habove.length_le
      have htwo := operation.path.two_le_length_segments
      rw [List.length_dropLast] at hlength
      omega
    refine .inspect_bind fun found => ?_
    rcases found with _ | ⟨file | _ | _ | _⟩
    · apply Guarded.write
      rintro state hstate ⟨⟨hstagedAt, hfront⟩, hread⟩
      have hfree := Except.ok.inj hread
      have hreceives : state.project.Receives component := by
        refine ⟨hpos, ?_, ?_, ?_⟩
        · rcases dropLast_mem_of_inits heq with hroot | hbefore
          · rw [hroot]
            exact state.project.rooted
          · exact hfront _ hbefore
        · apply @TrackedUnityFilePath.plainName_of_mem_segments operation.path
          rw [List.getLastD_eq_getLast?, List.getLast?_eq_getLast_of_ne_nil hpos]
          exact hstarts.subset (List.getLast_mem hpos)
        · change state.project.entry component ≠ _
          rw [hfree]
          exact (Option.some_ne_none _).symm
      refine ⟨hstate.put_directory hmem hstaged hstarts hne hfree, hstagedAt, ?_, ?_⟩
      · exact (ProjectFiles.entry_put hreceives).trans (if_pos rfl)
      · intro other hother
        change (state.project.put component .directory).entry other = _
        rw [ProjectFiles.entry_put hreceives]
        split
        · rfl
        · exact hfront other hother
    · exact .fail
    · exact .pure fun state _ hstate =>
        ⟨hstate.1.1, Except.ok.inj hstate.2, hstate.1.2⟩
    · exact .fail
    · exact .fail
  apply hloop.implies
  intro _ state _ hstate
  exact ⟨hstate.1, hstate.2 _ (mem_inits_tail.mpr ⟨List.prefix_refl _,
    operation.path.dropLast_segments_ne_nil⟩)⟩


/-! A copy next to the destination. -/

variable (context operation) in
/-- The place of the copy, in the directory of the published file. -/
def temporaryOf (transactionId : String) : Path :=
  transactionMaterializationTempPath context.blake3 operation.path transactionId

/-- The directory of the file is there, and the copy in it. -/
def CopyAt (context : TransactionContext) (operation : FileOperation) (transactionId : String)
    (file : ProjectFile) (workspace : Workspace) : Prop :=
  workspace.project.entry operation.path.segments.dropLast = some .directory ∧
    workspace.project.entry (temporaryOf context operation transactionId) = some (.file file)

omit hmem hstaged in
theorem receives_temporary {transactionId : String}
    (hparent : workspace.project.entry operation.path.segments.dropLast = some .directory)
    (hplace : workspace.project.entry (temporaryOf context operation transactionId) ≠
      some .directory) :
    workspace.project.Receives (temporaryOf context operation transactionId) := by
  refine ⟨by simp [temporaryOf, transactionMaterializationTempPath], ?_, ?_, hplace⟩
  · rw [temporaryOf, transactionMaterializationTempPath, List.dropLast_concat]
    exact hparent
  · rw [temporaryOf, transactionMaterializationTempPath, List.getLastD_concat]
    exact plainName_temporary _

omit hmem hstaged in
theorem copyAt_put {transactionId : String} {file : ProjectFile}
    (hown : ¬ ToolPath operation.path.segments)
    (hparent : workspace.project.entry operation.path.segments.dropLast = some .directory)
    (hplace : workspace.project.entry (temporaryOf context operation transactionId) ≠
      some .directory) :
    CopyAt context operation transactionId file
      (workspace.putProject (temporaryOf context operation transactionId) (.file file)) := by
  constructor
  · rw [← hparent]
    apply ProjectFiles.entry_put_of_ne
    intro heq
    apply ToolPath.not_start hown (List.dropLast_prefix _)
    rw [heq]
    exact toolPath_transactionMaterializationTempPath _ _ _
  · exact (ProjectFiles.entry_put (receives_temporary hparent hplace)).trans (if_pos rfl)

omit hmem hstaged in
/-- The copy can take a free place, and changes nothing else. -/
theorem copyAt_move {transactionId : String} {file : ProjectFile}
    (hown : ¬ ToolPath operation.path.segments)
    (hcopy : CopyAt context operation transactionId file workspace)
    (hfree : workspace.project.entry operation.path.segments = none) :
    (workspace.moveProject (temporaryOf context operation transactionId)
        operation.path.segments).project.entry operation.path.segments = some (.file file) ∧
      ∀ other, ¬ ToolPath other → other ≠ operation.path.segments →
        (workspace.moveProject (temporaryOf context operation transactionId)
          operation.path.segments).project.entry other = workspace.project.entry other := by
  have htool : ToolPath (temporaryOf context operation transactionId) :=
    toolPath_transactionMaterializationTempPath _ _ _
  have hrenames : workspace.project.Renames (temporaryOf context operation transactionId)
      operation.path.segments := by
    refine ⟨by simp [temporaryOf, transactionMaterializationTempPath],
      ⟨operation.path.segments_ne_nil, hcopy.1, operation.path.plainName_getLastD_segments, ?_⟩,
      fun hstarts => ToolPath.not_start hown (List.dropLast_prefix _) (htool.of_start hstarts)⟩
    change workspace.project.entry operation.path.segments ≠ _
    rw [hfree]
    exact (Option.some_ne_none _).symm
  constructor
  · have hmoved := ProjectFiles.entry_move_target hrenames []
    rw [List.append_nil, List.append_nil] at hmoved
    exact hmoved.trans hcopy.2
  · intro other hother hne
    by_cases hstarts : operation.path.segments <+: other
    · have hbelow : workspace.project.entry other = none :=
        ProjectFiles.entry_eq_none_below (by rw [hfree]; exact (Option.some_ne_none _).symm)
          hstarts hne
      rw [hbelow]
      rcases hstarts with ⟨rest, rfl⟩
      refine (ProjectFiles.entry_move_target hrenames rest).trans ?_
      apply ProjectFiles.entry_eq_none_below (by rw [hcopy.2]; simp) (List.prefix_append _ _)
      intro heq
      apply hne
      rw [List.append_right_eq_self.mp heq, List.append_nil]
    · exact ProjectFiles.entry_move_of_not
        (fun htop => hother (htool.of_start htop)) hstarts

omit hmem hstaged in
/-- Then the file has to stand in one of the ways. -/
theorem undergoing_move {applied : Prop} {transactionId : String} {file : ProjectFile}
    (hown : ¬ ToolPath operation.path.segments)
    (h : Undergoing context plan before applied journal workspace)
    (hcopy : CopyAt context operation transactionId file workspace)
    (hfree : workspace.project.entry operation.path.segments = none)
    (hstands : Standing context plan before applied workspace.payload operation.path.segments
      (some (.file file))) :
    Undergoing context plan before applied journal (workspace.moveProject
      (temporaryOf context operation transactionId) operation.path.segments) := by
  rcases copyAt_move hown hcopy hfree with ⟨hentry, hothers⟩
  apply h.change
  · rfl
  · exact .refl _
  intro other hother
  by_cases hself : other = operation.path.segments
  · subst hself
    rw [hentry]
    exact Or.inr hstands
  · exact Or.inl (hothers other hother hself)

/-- The copy takes the place of the file. -/
theorem renameProjectFile_guarded (hfits : PlanFits context plan before) {transactionId : String}
    {file : ProjectFile} (hhash : operation.afterHash = some (context.blake3 file.content)) :
    Guarded (Publishing context plan before journal operation.path.segments start)
      (CopyAt context operation transactionId file)
      (renameProjectFile context (temporaryOf context operation transactionId)
        operation.path.segments)
      fun _ state => state.project.entry operation.path.segments = some (.file file) := by
  have hown := hfits.own operation hmem
  refine .inspect_bind fun occupied => .ite (fun _ => .fail) fun hoccupied => .write ?_
  rintro state hstate ⟨hcopy, hread⟩
  replace hoccupied := Workspace.entry_of_unoccupied hread hoccupied
  have hstands := hstate.between _ hown
  rw [hoccupied] at hstands
  rcases copyAt_move hown hcopy hoccupied with ⟨hentry, hothers⟩
  refine ⟨hstate.own (undergoing_move hown hstate.toUndergoing hcopy hoccupied ?_) hothers, hentry⟩
  exact .came trivial hmem hstaged rfl hstands.vacant.2.1 hhash

omit hmem hstaged in
/-- A copy gets its time. -/
theorem copyAt_setTime {transactionId : String} {file : ProjectFile} {time : Timestamp}
    (hown : ¬ ToolPath operation.path.segments)
    (h : CopyAt context operation transactionId file workspace) :
    CopyAt context operation transactionId { file with modified := time }
      (workspace.setProjectTime (temporaryOf context operation transactionId) time) := by
  rw [Workspace.setProjectTime, h.2]
  exact copyAt_put hown h.1 (by rw [h.2]; simp)

theorem fillTemporary_guarded (hfits : PlanFits context plan before) {kind : OperationPlanKind}
    {expectedHash : ObjectId} {expectedSize : Nat} {content : Bytes} {modified : Timestamp}
    {transactionId : String} {file : ProjectFile} (hhash : operation.afterHash = some expectedHash)
    (hsize : operation.afterSizeBytes = some expectedSize) :
    Guarded (Publishing context plan before journal operation.path.segments start)
      (CopyAt context operation transactionId file)
      (fillTemporary context kind operation expectedHash expectedSize content modified
        (temporaryOf context operation transactionId))
      fun _ state => AfterOperation context operation
        (state.project.entry operation.path.segments) := by
  have hown := hfits.own operation hmem
  have htool : ToolPath (temporaryOf context operation transactionId) :=
    toolPath_transactionMaterializationTempPath _ _ _
  rcases hfits.staged_time hmem hstaged with ⟨text, htext⟩
  refine .bind (m := fun _ state => ∃ written,
    CopyAt context operation transactionId ⟨content, written⟩ state) (.write ?_) fun _ => ?_
  · intro state hstate hcopy
    exact ⟨hstate.ownOnly (ownOnly_put htool), _, copyAt_put hown hcopy.1 (by rw [hcopy.2]; simp)⟩
  refine .ite (fun _ => .fail) fun hcontent => .lift_bind fun _ _ => .lift_bind fun time htime => ?_
  rw [not_or, not_not, not_not] at hcontent
  rw [htext] at htime
  rcases parseMtime_eq_ok htime with ⟨given, rfl, -⟩
  refine .bind (m := fun _ => CopyAt context operation transactionId ⟨content, given⟩) (.write ?_)
    fun _ => ?_
  · rintro state hstate ⟨written, hcopy⟩
    exact ⟨hstate.ownOnly (ownOnly_setTime htool), copyAt_setTime hown hcopy⟩
  refine .inspect_fact (fun readback => readback = ⟨content, given⟩) ?_ fun readback hreadback => ?_
  · intro readback state _ hcopy hread
    have hfile := Workspace.entry_of_openFile hread
    rw [hcopy.2, Option.some.injEq, TreeEntry.file.injEq] at hfile
    exact hfile.symm
  refine .lift_bind fun _ hverified => ?_
  rw [htext] at hverified
  have htimes := verifyFileMtime_eq_ok hverified
  rw [hreadback] at htimes
  refine .bind guardDiscard_guarded fun _ => ?_
  refine .bind (renameProjectFile_guarded hmem hstaged hfits
    (by rw [hhash, hcontent.2])).attempt_ok ?_
  rintro (error | ⟨⟨⟩⟩)
  · exact .fail
  · refine .pure fun state _ hentry => ?_
    rw [AfterOperation, hhash]
    exact ⟨_, hentry () rfl, hcontent.2.symm, by rw [hsize, hcontent.1], by rw [htext, htimes]⟩

section Copy

variable (hfits : PlanFits context plan before)
variable (hplain : ∀ files path attempt, PlainName (context.projectUuid files path attempt))
include hfits hplain

omit hmem hstaged hfits in
theorem unlinkOwn_guarded {target : Path} (htool : ToolPath target) {pre : Workspace → Prop} :
    Guarded (Publishing context plan before journal path start) pre
      (unlinkProjectFile context target) fun _ _ => True :=
  (unlinkProjectFile_ownOnly hplain htool).guarded
    (fun _ _ hstate _ hafter => hstate.ownOnly hafter) fun _ _ _ _ _ _ => trivial

theorem publishCopy_guarded {kind : OperationPlanKind} {transactionId : String}
    {expectedHash : ObjectId} {expectedSize : Nat} {content : Bytes} {modified : Timestamp}
    (hhash : operation.afterHash = some expectedHash)
    (hsize : operation.afterSizeBytes = some expectedSize) :
    Guarded (Publishing context plan before journal operation.path.segments start)
      (fun state => state.project.entry operation.path.segments.dropLast = some .directory)
      (publishCopy context kind operation transactionId expectedHash expectedSize content modified)
      fun _ state => AfterOperation context operation
        (state.project.entry operation.path.segments) := by
  have htool : ToolPath (temporaryOf context operation transactionId) :=
    toolPath_transactionMaterializationTempPath _ _ _
  refine .bind (m := fun _ state => ∃ file, CopyAt context operation transactionId file state)
    ?_ fun _ => ?_
  · refine .inspect_bind fun occupied => .ite (fun _ => .fail) fun hoccupied => .write ?_
    rintro state hstate ⟨hparent, hread⟩
    replace hoccupied := Workspace.entry_of_unoccupied hread hoccupied
    refine ⟨hstate.ownOnly (ownOnly_put htool), _, copyAt_put (hfits.own operation hmem) hparent ?_⟩
    rw [temporaryOf, hoccupied]
    exact (Option.some_ne_none _).symm
  refine .bind (.exists_pre fun file =>
    (fillTemporary_guarded hmem hstaged hfits hhash hsize).attempt_ok) ?_
  rintro (error | ⟨⟨⟩⟩)
  · exact .bind (unlinkOwn_guarded hplain htool).attempt_any fun _ => .fail
  · refine .bind (m := fun _ state => AfterOperation context operation
      (state.project.entry operation.path.segments)) ?_ fun _ => .pure fun _ _ hafter => hafter
    exact guardDiscard_guarded.weaken (fun _ _ hafter => hafter () rfl) fun _ _ _ hafter => hafter

omit hmem hstaged hfits hplain in
/-- A file of the transaction that is opened is there. -/
theorem entry_of_openPayloadFile {path : Path} {content : Bytes} {modified : Timestamp}
    (h : workspace.openPayloadFile context path = .ok (content, modified)) :
    workspace.payload.entry path = some (.file content) ∧ workspace.modified path = modified := by
  rw [Workspace.openPayloadFile] at h
  split at h
  · next found hfound =>
      rw [Except.ok.injEq, Prod.mk.injEq] at h
      refine ⟨?_, h.2⟩
      rw [← h.1]
      rw [FileTree.resolve] at hfound
      split at hfound
      · exact orError_eq_ok.mp hfound
      · cases hfound
  · cases h
  · cases h
  · cases h

omit hplain in
/-- The staged file is renamed to its place. -/
theorem publish_guarded {content : Bytes} {modified : Timestamp}
    (hhash : operation.afterHash = some (context.blake3 content)) :
    Guarded (Publishing context plan before journal operation.path.segments start)
      (fun state => (StagedAt operation content modified state ∧
        state.project.entry operation.path.segments.dropLast = some .directory) ∧
        state.project.entry operation.path.segments = none)
      (Durable.write fun workspace =>
        workspace.publish (stagedPath operation.path) operation.path.segments : TransactionM Unit)
      fun _ state => state.project.entry operation.path.segments =
        some (.file ⟨content, modified⟩) := by
  apply Guarded.write
  rintro state hstate ⟨⟨⟨hfile, hmodified⟩, hparent⟩, hfree⟩
  have hown := hfits.own operation hmem
  have hreceives : state.project.Receives operation.path.segments := by
    refine ⟨operation.path.segments_ne_nil, hparent, operation.path.plainName_getLastD_segments, ?_⟩
    change state.project.entry operation.path.segments ≠ _
    rw [hfree]
    exact (Option.some_ne_none _).symm
  have hpublish : state.publish (stagedPath operation.path) operation.path.segments =
      { state.putProject operation.path.segments (.file ⟨content, modified⟩) with
        payload := state.payload.erase (stagedPath operation.path) } := by
    rw [Workspace.publish, hfile, hmodified]
  have hentry : (state.project.put operation.path.segments (.file ⟨content, modified⟩)).entry
      operation.path.segments = some (.file ⟨content, modified⟩) :=
    (ProjectFiles.entry_put hreceives).trans (if_pos rfl)
  have hstands := hstate.between _ hown
  rw [hfree] at hstands
  have hput : Publishing context plan before journal operation.path.segments start
      (state.putProject operation.path.segments (.file ⟨content, modified⟩)) :=
    hstate.own (hstate.toUndergoing.put fun _ =>
      .came trivial hmem hstaged rfl hstands.vacant.2.1 hhash) fun _ _ hne =>
        ProjectFiles.entry_put_of_ne hne
  rw [hpublish]
  exact ⟨hput.payloadOnly ⟨rfl, rfl, .erase (by simp [stagedPath]) (by simp [stagedPath])⟩, hentry⟩

theorem restoreNewStagedFileToProject_guarded {kind : OperationPlanKind} {transactionId : String} :
    Guarded (Publishing context plan before journal operation.path.segments start)
      (fun _ => True) (restoreNewStagedFileToProject context kind operation transactionId)
      fun _ state => AfterOperation context operation
        (state.project.entry operation.path.segments) := by
  rcases hfits.staged_time hmem hstaged with ⟨text, htext⟩
  refine .ite (fun _ => .fail) fun _ => .lift_bind fun expectedHash hrequired =>
    .lift_bind fun expectedSize hexpected => ?_
  have hhash := orError_eq_ok.mp hrequired
  have hsize := orError_eq_ok.mp hexpected
  refine .bind (m := fun found => StagedAt operation found.1 found.2) (.inspect ?_) ?_
  · rintro ⟨content, modified⟩ state hread _ _
    have hopened : state.openPayloadFile context (stagedPath operation.path) =
        .ok (content, modified) := by
      split at hread
      · cases hread
      · exact hread
    exact entry_of_openPayloadFile hopened
  rintro ⟨content, modified⟩
  refine .ite (fun _ => .fail) fun hlength => .lift_bind fun _ hverified => ?_
  rw [htext] at hverified
  have htime := verifyFileMtime_eq_ok hverified
  refine .bind (createProjectParent_guarded hmem hstaged) fun _ => .ite (fun _ => ?_) fun _ =>
    .ite (fun _ => .fail) fun hcontent => .bind guardDiscard_guarded fun _ =>
    .ite (fun _ => ?_) fun _ => .inspect_bind fun occupied => .ite (fun _ => .fail) fun hfree => ?_
  · exact (publishCopy_guarded hmem hstaged hfits hplain hhash hsize).weaken
      (fun _ _ h => h.2) fun _ _ _ h => h
  · exact (publishCopy_guarded hmem hstaged hfits hplain hhash hsize).weaken
      (fun _ _ h => h.2) fun _ _ _ h => h
  · rw [not_not] at hcontent hlength
    refine .bind (m := fun _ state => state.project.entry operation.path.segments =
      some (.file ⟨content, modified⟩)) ?_ fun _ => .bind guardDiscard_guarded fun _ => ?_
    · apply (publish_guarded hmem hstaged hfits (by rw [hhash, hcontent])).weaken
      · rintro state - ⟨hheld, hread⟩
        replace hfree := Workspace.entry_of_unoccupied hread hfree
        exact ⟨hheld, hfree⟩
      · exact fun _ _ _ h => h
    · refine .pure fun state _ hentry => ?_
      rw [AfterOperation, hhash]
      exact ⟨_, hentry, hcontent.symm, by rw [hsize, hlength], by rw [htext, htime]⟩

end Copy

end Operation

/-! The other operations. -/

section Others

variable (hfits : PlanFits context plan before) (hmem : operation ∈ plan.operations)
include hfits hmem

omit hfits hmem in
theorem entry_setProjectTime {file : ProjectFile} (time : Timestamp) (hpath : path ≠ [])
    (hplain : PlainName (path.getLastD ""))
    (hfile : workspace.project.entry path = some (.file file)) :
    (workspace.setProjectTime path time).project.entry path =
      some (.file { file with modified := time }) := by
  have hreceives : workspace.project.Receives path := by
    refine ⟨hpath, ?_, hplain, ?_⟩
    · apply ProjectFiles.entry_above (by rw [hfile]; exact Option.some_ne_none _)
        (List.dropLast_prefix path)
      intro heq
      have hlength := congrArg List.length heq
      have hpos := List.length_pos_iff.mpr hpath
      rw [List.length_dropLast] at hlength
      omega
    · change workspace.project.entry path ≠ _
      rw [hfile]
      simp
  rw [Workspace.setProjectTime, hfile]
  exact (ProjectFiles.entry_put hreceives).trans (if_pos rfl)

theorem setProjectFileMtime_guarded (htype : operation.operationType = .setMetadata)
    {target : String} (htarget : operation.afterModifiedAtUtc = some target) :
    Guarded (Publishing context plan before journal operation.path.segments start)
      (fun _ => True) (setProjectFileMtime context operation target)
      fun _ state => AfterOperation context operation
        (state.project.entry operation.path.segments) := by
  refine .inspect_bind fun file => .ite (fun _ => .fail) fun hsame => ?_
  rw [not_or, not_or, not_not, not_not, not_not] at hsame
  rcases hsame with ⟨hhash, hsize, -⟩
  rcases hparse : context.parseRfc3339 target with message | time
  · exact .fail
  refine .bind (m := fun _ state => state.project.entry operation.path.segments =
    some (.file { file with modified := time })) (.write ?_) fun _ => ?_
  · rintro state hstate ⟨-, hread⟩
    have hfile := Workspace.entry_of_openFile hread
    have hentry := entry_setProjectTime time operation.path.segments_ne_nil
      operation.path.plainName_getLastD_segments hfile
    refine ⟨hstate.own ?_ fun other _ hne => ?_, hentry⟩
    · rw [Workspace.setProjectTime, hfile]
      apply hstate.toUndergoing.put
      intro hown
      have hstands := hstate.between _ hown
      rw [hfile] at hstands
      exact hstands.retime trivial hmem htype rfl
    · rw [Workspace.setProjectTime, hfile]
      exact ProjectFiles.entry_put_of_ne hne
  · refine .ite (fun _ => .fail) fun hcanonical => .pure fun state _ hentry => ?_
    rw [not_not] at hcanonical
    rw [AfterOperation, (hfits.metadata hmem htype).1, hhash]
    exact ⟨_, hentry, rfl, by rw [hfits.sizes operation hmem htype, hsize],
      by rw [htarget, hcanonical]⟩

/-- An operation leaves at its path what the plan says. -/
theorem applyOperation_guarded
    (hplain : ∀ files path attempt, PlainName (context.projectUuid files path attempt))
    {kind : OperationPlanKind} {transactionId : String} {remaining : List FileOperation} :
    Guarded (Publishing context plan before journal operation.path.segments start)
      (fun state => operation.operationType = .delete →
        ∀ file, state.project.entry operation.path.segments ≠ some (.file file))
      (applyOperation context kind transactionId remaining operation)
      fun _ state => AfterOperation context operation
        (state.project.entry operation.path.segments) := by
  have hpublish (hstaged : operation.isStaged = true) :
      Guarded (Publishing context plan before journal operation.path.segments start)
        (fun state => operation.operationType = .delete →
          ∀ file, state.project.entry operation.path.segments ≠ some (.file file))
        (do
          if ← restoreNewStagedFileToProject context kind operation transactionId then
            return remaining ++ [operation]
          else return remaining)
        fun _ state => AfterOperation context operation
          (state.project.entry operation.path.segments) := by
    refine .bind ((restoreNewStagedFileToProject_guarded hmem hstaged hfits hplain).weaken
      (fun _ _ _ => trivial) fun _ _ _ h => h) fun _ => .ite (fun _ => ?_) fun _ => ?_
    · exact .pure fun _ _ h => h
    · exact .pure fun _ _ h => h
  rcases htype : operation.operationType with _ | _ | _ | _
  · simp only [applyOperation, htype]
    rw [← htype]
    exact hpublish (by simp [FileOperation.isStaged, htype])
  · simp only [applyOperation, htype]
    rw [← htype]
    exact hpublish (by simp [FileOperation.isStaged, htype])
  · simp only [applyOperation, htype]
    refine .pure fun state _ hnone => ?_
    rw [AfterOperation, hfits.deleted hmem htype]
    exact hnone trivial
  · simp only [applyOperation, htype]
    refine .lift_bind fun target htarget => .bind
      ((setProjectFileMtime_guarded hfits hmem htype (orError_eq_ok.mp htarget)).weaken
        (fun _ _ _ => trivial) fun _ _ _ h => h) fun _ => .pure fun _ _ h => h

end Others

end Publishing

end CheckPo
