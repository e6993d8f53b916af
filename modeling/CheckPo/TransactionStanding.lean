/-
How each path of a project may stand while a transaction is applied or recovered, compared
with the project before it: what a step of either makes of one path.
-/
import CheckPo.GuardedRuns
import CheckPo.TransactionRollback

namespace CheckPo

/-! The names of the program itself. -/

/-- A name on the path is one that the program makes for its own files. -/
def ToolPath (path : Path) : Prop := ∃ name ∈ path, ".checkpo-".toList <+: name.toList

namespace ToolPath

variable {path top : Path}

theorem of_start (h : ToolPath top) (hstarts : top <+: path) : ToolPath path := by
  rcases h with ⟨name, hname, hown⟩
  exact ⟨name, hstarts.subset hname, hown⟩

theorem not_start (h : ¬ ToolPath path) (hstarts : top <+: path) : ¬ ToolPath top :=
  fun htop => h (htop.of_start hstarts)

theorem concat (parent : Path) {name : String} (h : ".checkpo-".toList <+: name.toList) :
    ToolPath (parent ++ [name]) :=
  ⟨name, List.mem_append_right _ (List.mem_singleton_self name), h⟩

end ToolPath

/-- What begins with a name's beginning and goes on. -/
theorem starts_of_front (front middle back : String)
    (hfront : ".checkpo-".toList <+: front.toList) : ".checkpo-".toList <+: (front ++ middle ++ back).toList := by
  rw [String.append_assoc, String.toList_append]
  exact hfront.trans (List.prefix_append _ _)

theorem toolPath_fileTombstone (parent : Path) (uuid : String) :
    ToolPath (parent ++ [fileTombstone uuid]) :=
  .concat parent (starts_of_front ".checkpo-delete-" uuid ".tomb" (by decide))

theorem toolPath_directoryTombstone (parent : Path) (uuid : String) :
    ToolPath (parent ++ [directoryTombstone uuid]) :=
  .concat parent (starts_of_front ".checkpo-delete-dir-" uuid ".tomb" (by decide))

theorem toolPath_transactionMaterializationTempPath (blake3 : Bytes → Digest32)
    (path : TrackedUnityFilePath) (transactionId : String) :
    ToolPath (transactionMaterializationTempPath blake3 path transactionId) :=
  .concat _ (starts_of_front ".checkpo-" _ ".tmp" (by decide))

theorem toolPath_recoveryAfterPath (blake3 : Bytes → Digest32) (path : TrackedUnityFilePath)
    (transactionId : String) : ToolPath (recoveryAfterPath blake3 path transactionId) := by
  apply ToolPath.concat
  change ".checkpo-".toList <+: (".checkpo-r-" ++ _ ++ "-" ++ transactionId ++ ".tmp").toList
  rw [String.append_assoc, String.append_assoc, String.append_assoc, String.toList_append]
  exact List.IsPrefix.trans (by decide) (List.prefix_append _ _)

/-! What a plan says of the project it was made for. -/

section Plan

variable (context : TransactionContext) (plan : OperationPlan) (before : ProjectFiles)

/-- What is seen of an entry: of a file its content and the text of its time. -/
def seen : TreeEntry ProjectFile → TreeEntry (Bytes × String)
  | .file file => .file (file.content, context.canonicalUtc file.modified)
  | .directory => .directory
  | .link => .link
  | .special => .special

/-- The operations and the directories of a plan say what was found in the project. -/
structure PlanFits : Prop where
  /-- Each operation was worked out from a file of the checkpoint and one of the project. -/
  made : ∀ operation ∈ plan.operations, ∃ file current,
    fileOperation operation.path file current = some operation
  distinct : (plan.operations.map FileOperation.path).Nodup
  own : ∀ operation ∈ plan.operations, ¬ ToolPath operation.path.segments
  found : ∀ operation ∈ plan.operations, operation.beforeHash ≠ none →
    ∃ file, before.entry operation.path.segments = some (.file file) ∧
      operation.beforeHash = some (context.blake3 file.content) ∧
      operation.beforeSizeBytes = some file.content.length ∧
      operation.beforeModifiedAtUtc = some (context.canonicalUtc file.modified)
  free : ∀ operation ∈ plan.operations, operation.beforeHash = none →
    before.entry operation.path.segments = none ∨
      before.entry operation.path.segments = some .directory ∧
        operation.path ∈ plan.directoriesToRemove
  sizes : ∀ operation ∈ plan.operations, operation.operationType = .setMetadata →
    operation.afterSizeBytes = operation.beforeSizeBytes
  /-- A directory that goes can be reached. -/
  removed : ∀ directory ∈ plan.directoriesToRemove,
    before.entry directory.segments = some .directory ∨
      ∃ top, top <+: directory.segments ∧ top ≠ directory.segments ∧
        before.entry top = some .link
  /-- Everything in a directory that goes is planned to go. -/
  below : ∀ directory ∈ plan.directoriesToRemove, ∀ path, directory.segments <+: path →
    before.entry path ≠ none →
    (∃ other ∈ plan.directoriesToRemove, other.segments = path) ∨
      ∃ operation ∈ plan.operations, operation.isBackedUp = true ∧
        operation.path.segments = path
  created : ∀ directory ∈ plan.directoriesToCreate,
    before.entry directory.segments ≠ some .directory

/-! What can become of a path. -/

/-- If a file was at the path, its content is in the backup. -/
def Kept (payload : RepositoryFiles) (path : Path) : Prop :=
  ∀ file, before.entry path = some (.file file) →
    payload.entry ("backup" :: path) = some (.file file.content)

/-- Nothing was at the path, or what was there is planned to go. -/
def Leaves (path : Path) : Prop :=
  before.entry path = none ∨
    (∃ operation ∈ plan.operations, operation.isBackedUp = true ∧
      operation.path.segments = path) ∨
    ∃ directory ∈ plan.directoriesToRemove, directory.segments = path

def AboveStaged (path : Path) : Prop :=
  ∃ operation ∈ plan.operations, operation.isStaged = true ∧
    path <+: operation.path.segments ∧ path ≠ operation.path.segments

/-- How a path may stand.  Without `applied` it stands as before, but that a directory of
which no plan speaks may have been made above a restored file. -/
inductive Standing (applied : Prop) (payload : RepositoryFiles) (path : Path) :
    Option (TreeEntry ProjectFile) → Prop
  | same {now : Option (TreeEntry ProjectFile)}
      (h : now.map (seen context) = (before.entry path).map (seen context)) :
      Standing applied payload path now
  | implied (hbefore : before.entry path = none) (habove : AboveStaged plan path)
      (hnot : ∀ directory ∈ plan.directoriesToCreate, directory.segments ≠ path) :
      Standing applied payload path (some .directory)
  | retimed (happlied : applied) {operation : FileOperation} {file : ProjectFile}
      {modified : Timestamp} (hmem : operation ∈ plan.operations)
      (htype : operation.operationType = .setMetadata) (hpath : operation.path.segments = path)
      (hbefore : before.entry path = some (.file file)) :
      Standing applied payload path (some (.file ⟨file.content, modified⟩))
  | gone (happlied : applied) (hleaves : Leaves plan before path)
      (hkept : Kept before payload path) : Standing applied payload path none
  | came (happlied : applied) {operation : FileOperation} {file : ProjectFile}
      (hmem : operation ∈ plan.operations) (hstaged : operation.isStaged = true)
      (hpath : operation.path.segments = path) (hkept : Kept before payload path)
      (hhash : operation.afterHash = some (context.blake3 file.content)) :
      Standing applied payload path (some (.file file))
  | made (happlied : applied) (hleaves : Leaves plan before path)
      (hkept : Kept before payload path)
      (hcomes : (∃ directory ∈ plan.directoriesToCreate, directory.segments = path) ∨
        AboveStaged plan path) :
      Standing applied payload path (some .directory)

/-- How the project stands, but for the names of the program itself. -/
def Between (applied : Prop) (current : ProjectFiles) (payload : RepositoryFiles) : Prop :=
  ∀ path, ¬ ToolPath path → Standing context plan before applied payload path (current.entry path)

/-- What an operation leaves at its path. -/
def AfterOperation (operation : FileOperation) (now : Option (TreeEntry ProjectFile)) : Prop :=
  match operation.afterHash with
  | none => ∀ file, now ≠ some (.file file)
  | some hash => ∃ file, now = some (.file file) ∧ hash = context.blake3 file.content ∧
      operation.afterSizeBytes = some file.content.length ∧
      operation.afterModifiedAtUtc = some (context.canonicalUtc file.modified)

/-- The plan has been carried out. -/
structure Applied (current : ProjectFiles) (payload : RepositoryFiles) : Prop where
  between : Between context plan before True current payload
  operations : ∀ operation ∈ plan.operations,
    AfterOperation context operation (current.entry operation.path.segments)

end Plan

namespace PlanFits

variable {context : TransactionContext} {plan : OperationPlan} {before : ProjectFiles}
variable (h : PlanFits context plan before) {operation : FileOperation}
include h

/-- The file that an operation backs up. -/
theorem backedUp (hmem : operation ∈ plan.operations) (hbacked : operation.isBackedUp = true) :
    ∃ file, before.entry operation.path.segments = some (.file file) ∧
      operation.beforeHash = some (context.blake3 file.content) ∧
      operation.beforeSizeBytes = some file.content.length ∧
      operation.beforeModifiedAtUtc = some (context.canonicalUtc file.modified) := by
  apply h.found operation hmem
  rcases h.made operation hmem with ⟨file, current, hmade⟩
  rcases fileOperation_fields hmade with ⟨-, hbefore, -⟩
  rcases fileOperation_type hmade with ⟨htype, -⟩ | ⟨-, found, wanted, hfound, -⟩ |
    ⟨-, hfound, -⟩ | ⟨htype, -⟩
  · simp [FileOperation.isBackedUp, htype] at hbacked
  · rw [hbefore, hfound]
    exact Option.some_ne_none _
  · rw [hbefore]
    rcases current with _ | found
    · cases hfound
    · exact Option.some_ne_none _
  · simp [FileOperation.isBackedUp, htype] at hbacked

/-- What an operation restores is not what it found. -/
theorem staged (hmem : operation ∈ plan.operations) (hstaged : operation.isStaged = true) :
    operation.beforeHash ≠ operation.afterHash := by
  rcases h.made operation hmem with ⟨file, current, hmade⟩
  rcases fileOperation_fields hmade with ⟨-, hbefore, -, -, hafter, -⟩
  rcases fileOperation_type hmade with ⟨-, rfl, hfile⟩ | ⟨-, found, wanted, rfl, rfl, hne⟩ |
    ⟨htype, -⟩ | ⟨htype, -⟩
  · rw [hbefore, hafter]
    rcases file with _ | file
    · cases hfile
    · exact (Option.some_ne_none _).symm
  · rw [hbefore, hafter]
    exact fun heq => hne (Option.some.inj heq)
  · simp [FileOperation.isStaged, htype] at hstaged
  · simp [FileOperation.isStaged, htype] at hstaged

theorem staged_time (hmem : operation ∈ plan.operations) (hstaged : operation.isStaged = true) :
    ∃ text, operation.afterModifiedAtUtc = some text := by
  rcases h.made operation hmem with ⟨file, current, hmade⟩
  rcases fileOperation_fields hmade with ⟨-, -, -, -, -, -, hafter⟩
  rcases fileOperation_type hmade with ⟨-, -, hfile⟩ | ⟨-, -, wanted, -, rfl, -⟩ |
    ⟨htype, -⟩ | ⟨htype, -⟩
  · rcases file with _ | file
    · cases hfile
    · exact ⟨_, hafter⟩
  · exact ⟨_, hafter⟩
  · simp [FileOperation.isStaged, htype] at hstaged
  · simp [FileOperation.isStaged, htype] at hstaged

/-- A file that only gets another time. -/
theorem metadata (hmem : operation ∈ plan.operations)
    (htype : operation.operationType = .setMetadata) :
    operation.afterHash = operation.beforeHash ∧
      ∃ file, before.entry operation.path.segments = some (.file file) ∧
        operation.beforeHash = some (context.blake3 file.content) ∧
        operation.beforeSizeBytes = some file.content.length ∧
        operation.beforeModifiedAtUtc = some (context.canonicalUtc file.modified) := by
  rcases h.made operation hmem with ⟨file, current, hmade⟩
  rcases fileOperation_fields hmade with ⟨-, hbefore, -, -, hafter, -⟩
  rcases fileOperation_type hmade with ⟨hother, -⟩ | ⟨hother, -⟩ | ⟨hother, -⟩ |
    ⟨-, found, wanted, rfl, rfl, hsame, -⟩
  · simp [hother] at htype
  · simp [hother] at htype
  · simp [hother] at htype
  · refine ⟨by rw [hbefore, hafter, Option.map_some, Option.map_some, hsame], ?_⟩
    apply h.found operation hmem
    rw [hbefore]
    exact Option.some_ne_none _

theorem deleted (hmem : operation ∈ plan.operations)
    (htype : operation.operationType = .delete) : operation.afterHash = none := by
  rcases h.made operation hmem with ⟨file, current, hmade⟩
  rcases fileOperation_fields hmade with ⟨-, -, -, -, hafter, -⟩
  rcases fileOperation_type hmade with ⟨hother, -⟩ | ⟨hother, -⟩ | ⟨-, -, rfl⟩ | ⟨hother, -⟩
  · simp [hother] at htype
  · simp [hother] at htype
  · exact hafter
  · simp [hother] at htype

/-- The place of a staged file is free, or what is there is planned to go. -/
theorem leaves (hmem : operation ∈ plan.operations) (hstaged : operation.isStaged = true) :
    Leaves plan before operation.path.segments := by
  by_cases hbefore : operation.beforeHash = none
  · rcases h.free operation hmem hbefore with hfree | ⟨-, hremoved⟩
    · exact Or.inl hfree
    · exact Or.inr (Or.inr ⟨operation.path, hremoved, rfl⟩)
  · refine Or.inr (Or.inl ⟨operation, hmem, ?_, rfl⟩)
    rcases h.made operation hmem with ⟨file, current, hmade⟩
    rcases fileOperation_fields hmade with ⟨-, hfield, -⟩
    rcases fileOperation_type hmade with ⟨-, rfl, -⟩ | ⟨htype, -⟩ | ⟨htype, -⟩ | ⟨htype, -⟩
    · exact absurd hfield hbefore
    · simp [FileOperation.isBackedUp, htype]
    · simp [FileOperation.isBackedUp, htype]
    · simp [FileOperation.isStaged, htype] at hstaged

/-- Operations at one path are one operation. -/
theorem eq_of_path {other : FileOperation} (hmem : operation ∈ plan.operations)
    (hother : other ∈ plan.operations) (hpath : operation.path.segments = other.path.segments) :
    operation = other :=
  List.inj_on_of_nodup_map h.distinct hmem hother (TrackedUnityFilePath.segments_injective hpath)

end PlanFits

/-! Steps at one path. -/

/-- Backups are only added. -/
def KeepsBackups (payload after : RepositoryFiles) : Prop :=
  ∀ path content, payload.entry ("backup" :: path) = some (.file content) →
    after.entry ("backup" :: path) = some (.file content)

section Steps

variable {context : TransactionContext} {plan : OperationPlan} {before : ProjectFiles}
variable {applied applied' : Prop} {payload after : RepositoryFiles} {path : Path}
variable {now : Option (TreeEntry ProjectFile)} {file : ProjectFile} {operation : FileOperation}

theorem Kept.mono (h : Kept before payload path) (hkeeps : KeepsBackups payload after) :
    Kept before after path :=
  fun file hfile => hkeeps path file.content (h file hfile)

theorem kept_of_not_file (h : ∀ file, before.entry path ≠ some (.file file)) :
    Kept before payload path :=
  fun file hfile => absurd hfile (h file)

namespace Standing

theorem mono (h : Standing context plan before applied payload path now)
    (hkeeps : KeepsBackups payload after) (happlied : applied → applied') :
    Standing context plan before applied' after path now := by
  cases h with
  | same h => exact .same h
  | implied hbefore habove hnot => exact .implied hbefore habove hnot
  | retimed h hmem htype hpath hbefore => exact .retimed (happlied h) hmem htype hpath hbefore
  | gone h hleaves hkept => exact .gone (happlied h) hleaves (hkept.mono hkeeps)
  | came h hmem hstaged hpath hkept hhash =>
      exact .came (happlied h) hmem hstaged hpath (hkept.mono hkeeps) hhash
  | made h hleaves hkept hcomes => exact .made (happlied h) hleaves (hkept.mono hkeeps) hcomes

/-- Where nothing is, nothing was, or the file that was there is in the backup. -/
theorem vacant (h : Standing context plan before applied payload path none) :
    Leaves plan before path ∧ Kept before payload path ∧
      (applied ∨ before.entry path = none) := by
  cases h with
  | same h =>
      have hnone : before.entry path = none := Option.map_eq_none_iff.mp h.symm
      exact ⟨Or.inl hnone, kept_of_not_file fun file => by rw [hnone]; exact (Option.some_ne_none _).symm,
        Or.inr hnone⟩
  | gone h hleaves hkept => exact ⟨hleaves, hkept, Or.inl h⟩

/-- A directory that the plan makes was made by it. -/
theorem created (hfits : PlanFits context plan before) {directory : TrackedUnityFilePath}
    (hmem : directory ∈ plan.directoriesToCreate)
    (h : Standing context plan before applied payload directory.segments (some .directory)) :
    applied ∧ Leaves plan before directory.segments ∧
      Kept before payload directory.segments := by
  cases h with
  | same h =>
      rcases hentry : before.entry directory.segments with _ | ⟨file | _ | _ | _⟩ <;>
        simp only [hentry, Option.map_some, Option.map_none, seen, reduceCtorEq,
          Option.some.injEq] at h
      exact absurd hentry (hfits.created directory hmem)
  | implied _ _ hnot => exact absurd rfl (hnot directory hmem)
  | made h hleaves hkept _ => exact ⟨h, hleaves, hkept⟩

/-- What is seen of a file that stands as before. -/
theorem file_of_same (h : (some (TreeEntry.file file)).map (seen context) =
      (before.entry path).map (seen context)) :
    ∃ found, before.entry path = some (.file found) ∧ file.content = found.content ∧
      context.canonicalUtc file.modified = context.canonicalUtc found.modified := by
  rcases hentry : before.entry path with _ | ⟨found | _ | _ | _⟩ <;>
    simp only [hentry, Option.map_some, Option.map_none, seen, reduceCtorEq,
      Option.some.injEq, TreeEntry.file.injEq, Prod.mk.injEq] at h
  exact ⟨found, rfl, h⟩

/-- A file with the content that an operation restores was restored by it. -/
theorem restoredFile (hfits : PlanFits context plan before)
    (hmem : operation ∈ plan.operations) (hstaged : operation.isStaged = true)
    (hhash : operation.afterHash = some (context.blake3 file.content))
    (h : Standing context plan before applied payload operation.path.segments
      (some (.file file))) :
    applied ∧ Kept before payload operation.path.segments := by
  have hnot : ∀ found, before.entry operation.path.segments = some (.file found) →
      found.content ≠ file.content := by
    intro found hfound hcontent
    by_cases hbefore : operation.beforeHash = none
    · rcases hfits.free operation hmem hbefore with hfree | ⟨hdirectory, -⟩
      · rw [hfound] at hfree
        cases hfree
      · rw [hfound] at hdirectory
        cases hdirectory
    · rcases hfits.found operation hmem hbefore with ⟨other, hother, hhashes, -⟩
      rw [hfound, Option.some.injEq, TreeEntry.file.injEq] at hother
      apply hfits.staged hmem hstaged
      rw [hhashes, hhash, ← hother, hcontent]
  cases h with
  | same h =>
      rcases file_of_same h with ⟨found, hfound, hcontent, -⟩
      exact absurd hcontent.symm (hnot found hfound)
  | retimed _ _ _ _ hbefore => exact (hnot _ hbefore rfl).elim
  | came h _ _ _ hkept _ => exact ⟨h, hkept⟩

/-- A file gets the time that it had. -/
theorem settled {found : ProjectFile} {modified : Timestamp}
    (hfound : before.entry path = some (.file found))
    (htime : context.canonicalUtc modified = context.canonicalUtc found.modified)
    (h : Standing context plan before applied payload path (some (.file file))) :
    Standing context plan before applied payload path
      (some (.file ⟨file.content, modified⟩)) := by
  cases h with
  | same h =>
      rcases file_of_same h with ⟨other, hother, hcontent, -⟩
      rw [hother, Option.some.injEq, TreeEntry.file.injEq] at hfound
      apply same
      simp only [hother, Option.map_some, seen, hcontent, htime, hfound]
  | retimed _ _ _ _ hbefore =>
      rw [hbefore, Option.some.injEq, TreeEntry.file.injEq] at hfound
      apply same
      simp only [hbefore, Option.map_some, seen, htime, hfound]
  | came h hmem hstaged hpath hkept hhash => exact .came h hmem hstaged hpath hkept hhash

/-- A file whose time the plan changes gets another time. -/
theorem retime {modified : Timestamp} (happlied : applied) (hmem : operation ∈ plan.operations)
    (htype : operation.operationType = .setMetadata) (hpath : operation.path.segments = path)
    (h : Standing context plan before applied payload path (some (.file file))) :
    Standing context plan before applied payload path
      (some (.file ⟨file.content, modified⟩)) := by
  cases h with
  | same h =>
      rcases file_of_same h with ⟨found, hfound, hcontent, -⟩
      rw [hcontent]
      exact .retimed happlied hmem htype hpath hfound
  | @retimed h _ found _ hmem htype hpath hbefore =>
      exact @retimed context plan before applied payload path h _ found modified hmem htype hpath
        hbefore
  | came h hmem hstaged hpath hkept hhash => exact .came h hmem hstaged hpath hkept hhash

/-- The state of a path that the check after a rollback accepts. -/
def Accepted (context : TransactionContext) (operation : FileOperation)
    (now : Option (TreeEntry ProjectFile)) : Prop :=
  match operation.beforeHash with
  | none => ∀ file, now ≠ some (.file file)
  | some hash => ∃ file, now = some (.file file) ∧ hash = context.blake3 file.content ∧
      operation.beforeModifiedAtUtc = some (context.canonicalUtc file.modified)

/-- Where the rollback has done its work, the path stands as before. -/
theorem restored (hfits : PlanFits context plan before)
    (hoperations : ∀ operation ∈ plan.operations, operation.path.segments = path →
      Accepted context operation now)
    (hcreated : ∀ directory ∈ plan.directoriesToCreate, directory.segments = path →
      now ≠ some .directory)
    (hremoved : ∀ directory ∈ plan.directoriesToRemove, directory.segments = path →
      now = some .directory)
    (h : Standing context plan before applied payload path now) :
    Standing context plan before False payload path now := by
  have hbacked : ∀ {operation : FileOperation}, operation ∈ plan.operations →
      operation.isBackedUp = true → operation.path.segments = path →
      ∃ file, now = some (.file file) := by
    intro operation hmem hbacked hpath
    have haccepted := hoperations operation hmem hpath
    rcases hfits.backedUp hmem hbacked with ⟨found, -, hbefore, -⟩
    rw [Accepted, hbefore] at haccepted
    rcases haccepted with ⟨file, hfile, -⟩
    exact ⟨file, hfile⟩
  cases h with
  | same h => exact .same h
  | implied hbefore habove hnot => exact .implied hbefore habove hnot
  | @retimed _ operation file modified hmem htype hpath hbefore =>
      have haccepted := hoperations operation hmem hpath
      rcases (hfits.metadata hmem htype).2 with ⟨found, hfound, hhash, -, htime⟩
      rw [Accepted, hhash] at haccepted
      rcases haccepted with ⟨other, hother, -, hmodified⟩
      rw [Option.some.injEq, TreeEntry.file.injEq] at hother
      rw [hpath, hbefore, Option.some.injEq, TreeEntry.file.injEq] at hfound
      rw [htime, ← hother, Option.some.injEq] at hmodified
      apply same
      simp only [hbefore, Option.map_some, seen, ← hmodified, hfound]
  | gone _ hleaves _ =>
      rcases hleaves with hnone | ⟨operation, hmem, hback, hpath⟩ | ⟨directory, hmem, hpath⟩
      · apply same
        rw [hnone]
      · rcases hbacked hmem hback hpath with ⟨file, hfile⟩
        cases hfile
      · cases hremoved directory hmem hpath
  | @came _ operation file hmem hstaged hpath _ hhash =>
      have haccepted := hoperations operation hmem hpath
      rcases hbefore : operation.beforeHash with _ | hash
      · rw [Accepted, hbefore] at haccepted
        exact absurd rfl (haccepted file)
      · rw [Accepted, hbefore] at haccepted
        rcases haccepted with ⟨other, hother, rfl, -⟩
        rw [Option.some.injEq, TreeEntry.file.injEq] at hother
        exact absurd (by rw [hbefore, hhash, hother]) (hfits.staged hmem hstaged)
  | made _ hleaves _ hcomes =>
      by_cases hcreates : ∃ directory ∈ plan.directoriesToCreate, directory.segments = path
      · rcases hcreates with ⟨directory, hmem, hpath⟩
        exact absurd rfl (hcreated directory hmem hpath)
      · have habove := hcomes.resolve_left hcreates
        have himplied (hnone : before.entry path = none) :
            Standing context plan before False payload path (some .directory) :=
          .implied hnone habove fun directory hmem hpath => hcreates ⟨directory, hmem, hpath⟩
        rcases hleaves with hnone | ⟨operation, hmem, hback, hpath⟩ | ⟨directory, hmem, hpath⟩
        · exact himplied hnone
        · rcases hbacked hmem hback hpath with ⟨file, hfile⟩
          cases hfile
        · rcases hfits.removed directory hmem with hdirectory | ⟨top, hstarts, hne, hlink⟩
          · apply same
            rw [← hpath, hdirectory]
          · apply himplied
            rw [← hpath]
            exact ProjectFiles.entry_eq_none_below (by rw [hlink]; simp) hstarts hne.symm

end Standing

end Steps

end CheckPo
