/-
The single steps of a transaction, as relations between the states around them: which paths
of the project a step may change, and that the backups of the transaction remain.
-/
import CheckPo.TransactionStanding
import CheckPo.TreeRemoval

namespace CheckPo

namespace WorkingTree

variable {tree : WorkingTree}

/-- What a lookup finds stands at the path, or was found through a link above it. -/
theorem lookup_or_link_of_resolveFrom
    {throughLink : Path → Except LookupError (TreeEntry ProjectFile)}
    {entry : TreeEntry ProjectFile} :
    ∀ (rest done : Path), tree.resolveFrom throughLink done rest = .ok entry →
      tree.lookup (done ++ rest) = some entry ∨
        (∃ top, top <+: done ++ rest ∧ top ≠ done ++ rest ∧ tree.lookup top = some .link) ∧
          ∃ asked, throughLink asked = .ok entry
  | [], done, h => by
      left
      rw [List.append_nil]
      rw [resolveFrom] at h
      rcases hdone : tree.lookup done with _ | found
      · rw [hdone, orError] at h
        cases h
      · rw [hdone, orError, Except.ok.injEq] at h
        rw [h]
  | name :: rest, done, h => by
      rw [resolveFrom] at h
      split at h
      · cases h
      · have hrest := lookup_or_link_of_resolveFrom rest (done ++ [name]) h
        rwa [List.append_assoc, List.singleton_append] at hrest
      · next hlink =>
          exact Or.inr ⟨⟨done, List.prefix_append _ _, by simp, hlink⟩, _, h⟩
      · cases h

/-- A lookup that follows no link finds what stands at the path. -/
theorem lookup_of_resolveFrom {throughLink : Path → Except LookupError (TreeEntry ProjectFile)}
    (hlink : ∀ path entry, throughLink path ≠ .ok entry) {path : Path}
    {entry : TreeEntry ProjectFile} (h : tree.resolveFrom throughLink [] path = .ok entry) :
    tree.lookup path = some entry := by
  rcases lookup_or_link_of_resolveFrom path [] h with hentry | ⟨-, asked, hasked⟩
  · exact hentry
  · exact absurd hasked (hlink asked entry)

theorem lookup_of_openFile {path : Path} {file : ProjectFile} (h : tree.openFile path = .ok file) :
    tree.lookup path = some (.file file) := by
  rw [openFile] at h
  split at h
  · next found hfound =>
      rw [← Except.ok.inj h]
      exact lookup_of_resolveFrom (fun _ _ heq => by cases heq) hfound
  · cases h
  · cases h
  · cases h

end WorkingTree

namespace Workspace

variable {context : TransactionContext} {workspace : Workspace} {path : Path}

theorem entry_of_openProjectDirectory (h : workspace.openProjectDirectory context path = .ok ()) :
    workspace.project.entry path = some .directory := by
  rw [openProjectDirectory] at h
  split at h
  · next hfound => exact WorkingTree.lookup_of_resolveFrom (fun _ _ heq => by cases heq) hfound
  · cases h
  · cases h

theorem entry_of_openFile {file : ProjectFile}
    (h : (workspace.workingTree context).openFile path = .ok file) :
    workspace.project.entry path = some (.file file) :=
  WorkingTree.lookup_of_openFile h

/-- A path that was read as free is free. -/
theorem entry_of_unoccupied {occupied : Bool}
    (hread : (.ok (workspace.project.entry path).isSome : CheckPoResult Bool) = .ok occupied)
    (h : ¬ occupied = true) : workspace.project.entry path = none := by
  rw [Except.ok.injEq] at hread
  rwa [← hread, Bool.not_eq_true, Option.isSome_eq_false_iff, Option.isNone_iff_eq_none] at h

end Workspace

/-! Relations between states. -/

/-- The project is as it was, and what is backed up remains. -/
structure PayloadOnly (workspace after : Workspace) : Prop where
  project : after.project = workspace.project
  journal : after.journal = workspace.journal
  backups : KeepsBackups workspace.payload after.payload

/-- Only files of the program itself come and go. -/
structure OwnOnly (workspace after : Workspace) : Prop where
  project : ∀ path, ¬ ToolPath path → after.project.entry path = workspace.project.entry path
  journal : after.journal = workspace.journal
  payload : after.payload = workspace.payload

/-- Nothing else changes but that a path and what is below it may go. -/
structure Vacates (path : Path) (workspace after : Workspace) : Prop where
  outside : ∀ other, ¬ ToolPath other → ¬ path <+: other →
    after.project.entry other = workspace.project.entry other
  inside : ∀ other, ¬ ToolPath other → path <+: other →
    after.project.entry other = none ∨
      after.project.entry other = workspace.project.entry other
  journal : after.journal = workspace.journal
  payload : after.payload = workspace.payload

namespace KeepsBackups

variable {payload middle after : RepositoryFiles} {path target : Path}

theorem refl (payload : RepositoryFiles) : KeepsBackups payload payload := fun _ _ h => h

theorem trans (hfirst : KeepsBackups payload middle) (hrest : KeepsBackups middle after) :
    KeepsBackups payload after :=
  fun path content h => hrest path content (hfirst path content h)

/-- Something new takes a free place. -/
theorem put_free {value : TreeEntry Bytes} (hfree : payload.entry path = none) :
    KeepsBackups payload (payload.put path value) := by
  intro other content h
  rw [FileTree.entry_put_of_ne, h]
  rintro rfl
  rw [hfree] at h
  cases h

theorem put {value : TreeEntry Bytes} (hpath : path.head? ≠ some "backup") :
    KeepsBackups payload (payload.put path value) := by
  intro other content h
  rw [FileTree.entry_put_of_ne, h]
  rintro rfl
  exact hpath rfl

theorem erase (hpath : path.head? ≠ some "backup") (hne : path ≠ []) :
    KeepsBackups payload (payload.erase path) := by
  intro other content h
  rw [FileTree.entry_erase_of_not, h]
  rintro ⟨rest, hrest⟩
  rcases path with _ | ⟨name, path⟩
  · exact hne rfl
  · rw [List.cons_append, List.cons.injEq] at hrest
    exact hpath (by rw [List.head?_cons, hrest.1])

theorem move (hpath : path.head? ≠ some "backup") (hne : path ≠ [])
    (htarget : target.head? ≠ some "backup") (htargetNe : target ≠ []) :
    KeepsBackups payload (payload.move path target) := by
  have hapart : ∀ {top : Path} {other : Path}, top.head? ≠ some "backup" → top ≠ [] →
      ¬ top <+: "backup" :: other := by
    rintro top other htop htopNe ⟨rest, hrest⟩
    rcases top with _ | ⟨name, top⟩
    · exact htopNe rfl
    · rw [List.cons_append, List.cons.injEq] at hrest
      exact htop (by rw [List.head?_cons, hrest.1])
  intro other content h
  rw [FileTree.entry_move_of_not (hapart hpath hne) (hapart htarget htargetNe), h]

end KeepsBackups

instance preorderKeepsBackups : IsPreorder RepositoryFiles KeepsBackups where
  refl := KeepsBackups.refl
  trans _ _ _ := KeepsBackups.trans

instance preorderPayloadOnly : IsPreorder Workspace PayloadOnly where
  refl _ := ⟨rfl, rfl, .refl _⟩
  trans _ _ _ hfirst hrest := ⟨hrest.project.trans hfirst.project,
    hrest.journal.trans hfirst.journal, hfirst.backups.trans hrest.backups⟩

instance preorderOwnOnly : IsPreorder Workspace OwnOnly where
  refl _ := ⟨fun _ _ => rfl, rfl, rfl⟩
  trans _ _ _ hfirst hrest := ⟨fun path hpath => (hrest.project path hpath).trans
      (hfirst.project path hpath),
    hrest.journal.trans hfirst.journal, hrest.payload.trans hfirst.payload⟩

/-! Steps in the directory of the transaction. -/

section Payload

variable {context : TransactionContext} {path : Path}

theorem payloadOnly_write {update : Workspace → Workspace}
    (hproject : ∀ workspace, (update workspace).project = workspace.project)
    (hjournal : ∀ workspace, (update workspace).journal = workspace.journal)
    (hbackups : ∀ workspace, KeepsBackups workspace.payload (update workspace).payload) :
    WritesAlong PayloadOnly (Durable.write update : TransactionM Unit) :=
  .write fun workspace => ⟨hproject workspace, hjournal workspace, hbackups workspace⟩

theorem onPayload_payloadOnly {α : Type} {program : RepositoryM α}
    (h : WritesAlong KeepsBackups program) : WritesAlong PayloadOnly (onPayload program) :=
  .zoom h fun _ _ hkeeps => ⟨rfl, rfl, hkeeps⟩

theorem ensureAnchoredDirectory_keepsBackups (root : String) (path : Path) :
    WritesAlong KeepsBackups (ensureAnchoredDirectory root path) := by
  refine .forM fun component _ => .inspect_bind fun files found hfound => ?_
  rw [Except.ok.injEq] at hfound
  subst hfound
  rcases hentry : files.entry component with _ | ⟨content | _ | _ | _⟩
  · exact List.forall_mem_singleton.mpr (.put_free hentry)
  · exact List.forall_mem_nil _
  · exact List.forall_mem_nil _
  · exact List.forall_mem_nil _
  · exact List.forall_mem_nil _

theorem createPayloadParent_payloadOnly :
    WritesAlong PayloadOnly (createPayloadParent context path) :=
  onPayload_payloadOnly (ensureAnchoredDirectory_keepsBackups _ _)

theorem createTransactionDirectory_payloadOnly :
    WritesAlong PayloadOnly (createTransactionDirectory context path) := by
  refine .forM fun component _ => .inspect_bind fun workspace found hfound => ?_
  rw [Except.ok.injEq] at hfound
  subst hfound
  rcases hentry : workspace.payload.entry component with _ | ⟨content | _ | _ | _⟩
  · exact List.forall_mem_singleton.mpr ⟨rfl, rfl, .put_free hentry⟩
  · exact List.forall_mem_nil _
  · exact List.forall_mem_nil _
  · exact List.forall_mem_nil _
  · exact List.forall_mem_nil _

theorem createPayloadFile_payloadOnly : WritesAlong PayloadOnly (createPayloadFile context path) := by
  refine .inspect_bind fun workspace occupied hoccupied => ?_
  rw [Except.ok.injEq] at hoccupied
  subst hoccupied
  rcases hentry : workspace.payload.entry path with _ | found
  · exact List.forall_mem_singleton.mpr ⟨rfl, rfl, .put_free hentry⟩
  · exact List.forall_mem_nil _

theorem writePayload_payloadOnly {content : Bytes} (hpath : path.head? ≠ some "backup") :
    WritesAlong PayloadOnly (Durable.write fun workspace =>
      workspace.writePayload context path content : TransactionM Unit) :=
  payloadOnly_write (fun _ => rfl) (fun _ => rfl) fun _ => .put hpath

theorem setPayloadTime_payloadOnly {time : Timestamp} :
    WritesAlong PayloadOnly (Durable.write fun workspace =>
      workspace.setPayloadTime path time : TransactionM Unit) :=
  payloadOnly_write (fun _ => rfl) (fun _ => rfl) fun _ => .refl _

theorem unlinkPayloadFile_payloadOnly {top : String} {rest : Path} (htop : top ≠ "backup")
    (hrest : rest ≠ []) : WritesAlong PayloadOnly (unlinkPayloadFile context (top :: rest)) := by
  have hhead : ∀ {name : String}, ((top :: rest).dropLast ++ [name]).head? ≠ some "backup" := by
    intro name
    rw [List.dropLast_cons_of_ne_nil hrest, List.cons_append, List.head?_cons]
    exact fun heq => htop (Option.some.inj heq)
  have hself : (top :: rest).head? ≠ some "backup" := by
    rw [List.head?_cons]
    exact fun heq => htop (Option.some.inj heq)
  apply onPayload_payloadOnly
  refine fun files after hafter => ?_
  rcases hfree : freeTombstone context.payloadUuid fileTombstone files (top :: rest) with _ | target
  · rw [unlinkFile_granted, detach, Durable.bind_run_error] at hafter
    · exact absurd hafter List.not_mem_nil
    · rw [Durable.inspect_bind_run, hfree]
      rfl
  · have hname : ∃ name, target = (top :: rest).dropLast ++ [name] := by
      rw [freeTombstone] at hfree
      rcases List.mem_map.mp (List.mem_of_find?_eq_some hfree) with ⟨attempt, -, rfl⟩
      exact ⟨_, rfl⟩
    rcases hname with ⟨name, rfl⟩
    have hmove : KeepsBackups files (files.move (top :: rest) ((top :: rest).dropLast ++ [name])) :=
      .move hself (List.cons_ne_nil _ _) hhead (by simp)
    rw [unlinkFile_granted, detach, Durable.bind_run_ok] at hafter
    rotate_left
    · rw [Durable.inspect_bind_run, hfree]
      rfl
    rcases List.mem_append.mp hafter with hmem | hmem
    · rw [List.mem_singleton.mp hmem]
      exact hmove
    · rw [List.mem_singleton.mp hmem]
      exact hmove.trans (.erase hhead (by simp))

end Payload

/-! Steps in the project. -/

namespace ProjectFiles

variable {files : ProjectFiles} {path other : Path}

theorem entry_erase_of_not (h : ¬ path <+: other) :
    (files.erase path).entry other = files.entry other := by
  have hpath : path ≠ [] := by
    rintro rfl
    exact h List.nil_prefix
  rw [entry_erase hpath, if_neg h]

/-- What is there can get a free name next to it. -/
theorem renames_beside {name : String} (hentry : files.entry path ≠ none) (hpath : path ≠ [])
    (hname : PlainName name) (hfree : files.entry (path.dropLast ++ [name]) = none) :
    files.Renames path (path.dropLast ++ [name]) := by
  have hparent : files.entry path.dropLast = some .directory := by
    apply entry_above hentry (List.dropLast_prefix path)
    intro heq
    have hlength := congrArg List.length heq
    rw [List.length_dropLast] at hlength
    have hpos := List.length_pos_iff.mpr hpath
    omega
  refine ⟨hpath, ⟨by simp, ?_, ?_, ?_⟩, ?_⟩
  · rwa [List.dropLast_concat]
  · rw [List.getLastD_concat]
    exact hname
  · change files.entry _ ≠ _
    rw [hfree]
    exact (Option.some_ne_none _).symm
  · rw [List.dropLast_concat]
    intro hstarts
    have hlength := hstarts.length_le
    rw [List.length_dropLast] at hlength
    have hpos := List.length_pos_iff.mpr hpath
    omega

end ProjectFiles

/-- A tombstone name is free, and next to what goes. -/
def TombstoneOf (context : TransactionContext) (tombstone : String → String)
    (workspace : Workspace) (path target : Path) : Prop :=
  workspace.project.entry target = none ∧ ∃ attempt,
    target = path.dropLast ++ [tombstone (context.projectUuid workspace.project path attempt)]

section Project

variable {context : TransactionContext} {path target : Path} {workspace after : Workspace}
variable {tombstone : String → String}

theorem ownOnly_put {value : TreeEntry ProjectFile} (hpath : ToolPath path) :
    OwnOnly workspace (workspace.putProject path value) where
  project other hother := by
    apply ProjectFiles.entry_put_of_ne
    rintro rfl
    exact hother hpath
  journal := rfl
  payload := rfl

theorem ownOnly_erase (hpath : ToolPath path) : OwnOnly workspace (workspace.eraseProject path) where
  project _ hother := ProjectFiles.entry_erase_of_not fun hstarts => hother (hpath.of_start hstarts)
  journal := rfl
  payload := rfl

theorem ownOnly_setTime {time : Timestamp} (hpath : ToolPath path) :
    OwnOnly workspace (workspace.setProjectTime path time) := by
  rw [Workspace.setProjectTime]
  split
  · exact ownOnly_put hpath
  · exact refl_of OwnOnly workspace

theorem Vacates.ownOnly (h : Vacates path workspace after) (hpath : ToolPath path) :
    OwnOnly workspace after where
  project other hother := h.outside other hother fun hstarts => hother (hpath.of_start hstarts)
  journal := h.journal
  payload := h.payload

theorem Vacates.trans_ownOnly {last : Workspace} (h : Vacates path workspace after)
    (hown : OwnOnly after last) : Vacates path workspace last where
  outside other hother hapart := (hown.project other hother).trans (h.outside other hother hapart)
  inside other hother hstarts := by
    rw [hown.project other hother]
    exact h.inside other hother hstarts
  journal := hown.journal.trans h.journal
  payload := hown.payload.trans h.payload

theorem Vacates.refl : Vacates path workspace workspace :=
  ⟨fun _ _ _ => rfl, fun _ _ _ => Or.inr rfl, rfl, rfl⟩

theorem vacates_move (htarget : ToolPath target) :
    Vacates path workspace (workspace.moveProject path target) where
  outside other hother hapart := ProjectFiles.entry_move_of_not hapart fun hstarts =>
    hother (htarget.of_start hstarts)
  inside other hother hstarts := by
    have hapart : ¬ target <+: other := fun htop => hother (htarget.of_start htop)
    by_cases hrenames : workspace.project.Renames path target
    · exact Or.inl (ProjectFiles.entry_move_source hrenames hstarts hapart)
    · right
      change (workspace.project.move path target).entry other = _
      rw [ProjectFiles.move, dif_neg hrenames]
  journal := rfl
  payload := rfl

/-- What was moved away may come back. -/
theorem vacates_back (htarget : ToolPath target) (hfree : workspace.project.entry target = none) :
    Vacates path workspace ((workspace.moveProject path target).moveProject target path) where
  outside other hother hapart := by
    have htop : ¬ target <+: other := fun htop => hother (htarget.of_start htop)
    exact (ProjectFiles.entry_move_of_not htop hapart).trans
      (ProjectFiles.entry_move_of_not hapart htop)
  inside other hother hstarts := by
    have hmoved := (@vacates_move path target workspace htarget).inside other hother hstarts
    by_cases hback : (workspace.project.move path target).Renames target path
    · rcases hstarts with ⟨rest, rfl⟩
      have hreturned := ProjectFiles.entry_move_target hback rest
      by_cases hrenames : workspace.project.Renames path target
      · exact Or.inr (hreturned.trans (ProjectFiles.entry_move_target hrenames rest))
      · left
        refine hreturned.trans ?_
        rw [ProjectFiles.move, dif_neg hrenames]
        exact workspace.project.closed.free hfree _ (List.prefix_append _ _)
    · change ((workspace.project.move path target).move target path).entry other = none ∨
        ((workspace.project.move path target).move target path).entry other = _
      rw [ProjectFiles.move, dif_neg hback]
      exact hmoved
  journal := rfl
  payload := rfl

theorem detachInProject_triple (workspace : Workspace) :
    CrashTriple (fun state => state = workspace) (detachInProject context tombstone path)
      (fun target state => state = workspace.moveProject path target ∧
        TombstoneOf context tombstone workspace path target)
      (fun _ state => state = workspace)
      (fun state => ∃ target, state = workspace.moveProject path target ∧
        TombstoneOf context tombstone workspace path target) := by
  apply CrashTriple.bind
    (m := fun target state => state = workspace ∧ TombstoneOf context tombstone workspace path target)
  · apply CrashTriple.inspect
    · rintro target state hread rfl
      refine ⟨rfl, ?_⟩
      rcases hfound : freeProjectTombstone context tombstone state.project path with _ | found
      · rw [hfound] at hread
        cases hread
      · rw [hfound, orError, Except.ok.injEq] at hread
        subst hread
        rw [freeProjectTombstone] at hfound
        rcases List.mem_map.mp (List.mem_of_find?_eq_some hfound) with ⟨attempt, -, heq⟩
        have hnone := List.find?_some hfound
        exact ⟨Option.isNone_iff_eq_none.mp hnone, attempt, heq.symm⟩
    · exact fun _ _ _ hstate => hstate
  · intro target
    apply CrashTriple.bind (m := fun _ state => state = workspace.moveProject path target ∧
      TombstoneOf context tombstone workspace path target)
    · apply CrashTriple.write
      rintro state ⟨rfl, htarget⟩
      exact ⟨⟨target, rfl, htarget⟩, rfl, htarget⟩
    · exact fun _ => CrashTriple.pure fun _ hstate => hstate

section Removal

-- no UUID has a slash
variable (hplain : ∀ files path attempt, PlainName (context.projectUuid files path attempt))
include hplain

/-- A tombstone takes what is there. -/
theorem entry_moved (front back : String) (hfront : PlainName front) (hback : PlainName back)
    (htarget : TombstoneOf context (fun uuid => front ++ uuid ++ back) workspace path target)
    (hentry : workspace.project.entry path ≠ none) (hpath : path ≠ []) :
    (workspace.moveProject path target).project.entry path = none ∧ ¬ target <+: path := by
  rcases htarget with ⟨hfree, attempt, rfl⟩
  have hname : PlainName (front ++ context.projectUuid workspace.project path attempt ++ back) := by
    rw [PlainName, String.toList_append, String.toList_append, List.mem_append, List.mem_append]
    rintro ((hslash | hslash) | hslash)
    · exact hfront hslash
    · exact hplain _ _ _ hslash
    · exact hback hslash
  have hapart : ¬ path.dropLast ++ [front ++ context.projectUuid workspace.project path attempt ++ back] <+:
      path := by
    intro hstarts
    have hlength : (path.dropLast ++ [front ++ context.projectUuid workspace.project path attempt ++
        back]).length = path.length := by
      have hpos := List.length_pos_iff.mpr hpath
      rw [List.length_append, List.length_dropLast, List.length_singleton]
      omega
    rw [hstarts.eq_of_length hlength] at hfree
    exact hentry hfree
  exact ⟨ProjectFiles.entry_move_source (ProjectFiles.renames_beside hentry hpath hname hfree)
    (List.prefix_refl _) hapart, hapart⟩

theorem unlinkProjectFile_triple (hpath : path ≠ []) (workspace : Workspace) :
    CrashTriple (fun state => state = workspace) (unlinkProjectFile context path)
      (fun _ state => Vacates path workspace state ∧
        (¬ ToolPath path → state.project.entry path = none))
      (fun _ state => Vacates path workspace state) (Vacates path workspace) := by
  apply CrashTriple.bind (m := fun target state => state = workspace.moveProject path target ∧
    TombstoneOf context fileTombstone workspace path target)
  · apply (detachInProject_triple workspace).weaken (fun _ h => h) (fun _ _ h => h)
    · rintro _ _ rfl
      exact .refl
    · rintro state ⟨target, rfl, -, attempt, rfl⟩
      exact vacates_move (toolPath_fileTombstone _ _)
  · intro target
    apply CrashTriple.write
    rintro state ⟨rfl, htarget⟩
    have htool : ToolPath target := by
      rcases htarget with ⟨-, attempt, rfl⟩
      exact toolPath_fileTombstone _ _
    have hvacates : Vacates path workspace
        ((workspace.moveProject path target).eraseProject target) :=
      (vacates_move htool).trans_ownOnly (ownOnly_erase htool)
    refine ⟨hvacates, hvacates, fun hown => ?_⟩
    by_cases hentry : workspace.project.entry path = none
    · rcases hvacates.inside path hown (List.prefix_refl path) with hnone | hsame
      · exact hnone
      · exact hsame.trans hentry
    · rcases entry_moved hplain ".checkpo-delete-" ".tomb" (by decide)
        (by decide) htarget hentry hpath with ⟨hgone, hapart⟩
      exact (ProjectFiles.entry_erase_of_not hapart).trans hgone

/-- Removing a file of the program itself. -/
theorem unlinkProjectFile_ownOnly (htool : ToolPath path) :
    WritesAlong OwnOnly (unlinkProjectFile context path) := by
  have hpath : path ≠ [] := by
    rintro rfl
    rcases htool with ⟨name, hname, -⟩
    exact absurd hname List.not_mem_nil
  intro workspace after hafter
  exact ((unlinkProjectFile_triple hplain hpath workspace workspace rfl).1 after hafter).ownOnly htool

theorem unlinkProjectDirectory_triple (hpath : path ≠ []) (workspace : Workspace) :
    CrashTriple (fun state => state = workspace) (unlinkProjectDirectory context path)
      (fun _ state => Vacates path workspace state ∧ state.project.entry path = none)
      (fun _ state => Vacates path workspace state) (Vacates path workspace) := by
  apply CrashTriple.bind (m := fun _ state => state = workspace ∧
    workspace.project.entry path = some .directory)
  · apply CrashTriple.inspect
    · rintro _ state hopen rfl
      exact ⟨rfl, Workspace.entry_of_openProjectDirectory hopen⟩
    · rintro _ state - rfl
      exact .refl
  intro _
  apply CrashTriple.bind (m := fun target state => (state = workspace.moveProject path target ∧
    TombstoneOf context directoryTombstone workspace path target) ∧
    workspace.project.entry path = some .directory)
  · apply CrashTriple.of_state
    rintro state ⟨rfl, hentry⟩
    apply (detachInProject_triple state).weaken (fun _ h => h) (fun _ _ h => ⟨h, hentry⟩)
    · rintro _ _ rfl
      exact .refl
    · rintro after ⟨target, rfl, -, attempt, rfl⟩
      exact vacates_move (toolPath_directoryTombstone _ _)
  intro target
  rintro state ⟨⟨rfl, htarget⟩, hentry⟩
  have htool : ToolPath target := by
    rcases htarget with ⟨-, attempt, rfl⟩
    exact toolPath_directoryTombstone _ _
  have hvacates : Vacates path workspace
      ((workspace.moveProject path target).eraseProject target) :=
    (vacates_move htool).trans_ownOnly (ownOnly_erase htool)
  rcases entry_moved hplain ".checkpo-delete-dir-" ".tomb" (by decide)
    (by decide) htarget (by rw [hentry]; exact Option.some_ne_none _) hpath with ⟨hgone, hapart⟩
  rw [Durable.final, Durable.inspect_bind_run]
  dsimp only
  split
  · exact ⟨List.forall_mem_singleton.mpr hvacates, hvacates,
      (ProjectFiles.entry_erase_of_not hapart).trans hgone⟩
  · rw [Durable.inspect_bind_run]
    dsimp only
    split
    · exact ⟨List.forall_mem_nil _, vacates_move htool⟩
    · have hback := @vacates_back path target workspace htool htarget.1
      exact ⟨List.forall_mem_singleton.mpr hback, hback⟩

/-- A directory goes when it is empty. -/
theorem removeProjectDirectory_triple (directory : TrackedUnityFilePath) (workspace : Workspace) :
    CrashTriple (fun state => state = workspace) (removeProjectDirectory context directory)
      (fun _ state => Vacates directory.segments workspace state ∧
        state.project.entry directory.segments = none)
      (fun _ state => Vacates directory.segments workspace state)
      (Vacates directory.segments workspace) := by
  apply CrashTriple.bind (m := fun _ state => state = workspace)
  · apply CrashTriple.inspect
    · exact fun _ _ _ hstate => hstate
    · rintro _ state - rfl
      exact .refl
  intro _
  apply CrashTriple.bind (m := fun result state => Vacates directory.segments workspace state ∧
    (result = .ok () → state.project.entry directory.segments = none))
  · apply CrashTriple.attempt (unlinkProjectDirectory_triple hplain directory.segments_ne_nil workspace)
    · exact fun _ _ h => ⟨h.1, fun _ => h.2⟩
    · exact fun _ _ h => ⟨h, fun heq => by cases heq⟩
  rintro (error | ⟨⟨⟩⟩)
  · exact CrashTriple.lift (fun _ _ h _ => by cases h) fun _ _ _ h => h.1
  · exact CrashTriple.pure fun _ h => ⟨h.1, h.2 rfl⟩

end Removal

end Project

/-! What the steps make of a transaction. -/

section Undergoing

variable (context : TransactionContext) (plan : OperationPlan) (before : ProjectFiles)

/-- A transaction with a journal, and how the project stands. -/
structure Undergoing (applied : Prop) (journal : TransactionJournal) (workspace : Workspace) :
    Prop where
  journal : workspace.journal = some journal
  between : Between context plan before applied workspace.project workspace.payload

variable {context plan before} {applied : Prop} {journal : TransactionJournal}
variable {workspace after : Workspace} {path : Path}

namespace Undergoing

/-- Where a path changes, it has to stand in one of the ways. -/
theorem change (h : Undergoing context plan before applied journal workspace)
    (hjournal : after.journal = workspace.journal)
    (hkeeps : KeepsBackups workspace.payload after.payload)
    (hproject : ∀ path, ¬ ToolPath path →
      after.project.entry path = workspace.project.entry path ∨
        Standing context plan before applied after.payload path (after.project.entry path)) :
    Undergoing context plan before applied journal after where
  journal := hjournal.trans h.journal
  between path hpath := by
    rcases hproject path hpath with hsame | hstands
    · rw [hsame]
      exact (h.between path hpath).mono hkeeps id
    · exact hstands

theorem payloadOnly (h : Undergoing context plan before applied journal workspace)
    (hafter : PayloadOnly workspace after) :
    Undergoing context plan before applied journal after :=
  h.change hafter.journal hafter.backups fun path _ => Or.inl (by rw [hafter.project])

theorem ownOnly (h : Undergoing context plan before applied journal workspace)
    (hafter : OwnOnly workspace after) : Undergoing context plan before applied journal after :=
  h.change hafter.journal (by rw [hafter.payload]; exact .refl _)
    fun path hpath => Or.inl (hafter.project path hpath)

/-- What goes is planned to go, and is in the backup. -/
theorem vacates (h : Undergoing context plan before applied journal workspace)
    (hafter : Vacates path workspace after)
    (hgoes : ∀ other, ¬ ToolPath other → path <+: other →
      workspace.project.entry other ≠ none →
      applied ∧ Leaves plan before other ∧ Kept before workspace.payload other) :
    Undergoing context plan before applied journal after := by
  apply h.change hafter.journal (by rw [hafter.payload]; exact .refl _)
  intro other hother
  by_cases hstarts : path <+: other
  · rcases hafter.inside other hother hstarts with hnone | hsame
    · by_cases hentry : workspace.project.entry other = none
      · exact Or.inl (hnone.trans hentry.symm)
      · rcases hgoes other hother hstarts hentry with ⟨happlied, hleaves, hkept⟩
        rw [hnone, hafter.payload]
        exact Or.inr (.gone happlied hleaves hkept)
    · exact Or.inl hsame
  · exact Or.inl (hafter.outside other hother hstarts)

theorem put (h : Undergoing context plan before applied journal workspace)
    {value : TreeEntry ProjectFile}
    (hstands : ¬ ToolPath path →
      Standing context plan before applied workspace.payload path (some value)) :
    Undergoing context plan before applied journal (workspace.putProject path value) := by
  apply h.change
  · rfl
  · exact .refl _
  intro other hother
  by_cases hself : other = path
  · subst hself
    by_cases hreceives : workspace.project.Receives other
    · right
      have hentry : (workspace.putProject other value).project.entry other = some value := by
        change (workspace.project.put other value).entry other = _
        rw [ProjectFiles.entry_put hreceives, if_pos rfl]
      rw [hentry]
      exact hstands hother
    · left
      change (workspace.project.put other value).entry other = _
      rw [ProjectFiles.put, dif_neg hreceives]
  · exact Or.inl (ProjectFiles.entry_put_of_ne hself)

end Undergoing

/-- Steps that leave the project alone may be made at any time. -/
theorem WritesAlong.undergoing {α : Type} {program : TransactionM α}
    (h : WritesAlong PayloadOnly program) {pre : Workspace → Prop} {post : α → Workspace → Prop}
    (hpost : ∀ value workspace after, Undergoing context plan before applied journal workspace →
      pre workspace → PayloadOnly workspace after → post value after) :
    Guarded (Undergoing context plan before applied journal) pre program post :=
  h.guarded (fun _ _ hstate _ hafter => hstate.payloadOnly hafter) hpost

/-- A relation that a program is known to follow from each state. -/
theorem guarded_of_triple {α : Type} {program : TransactionM α} {pre : Workspace → Prop}
    {post : α → Workspace → Prop} (along : Workspace → Workspace → Prop)
    (done : α → Workspace → Prop)
    (h : ∀ workspace, Undergoing context plan before applied journal workspace → pre workspace →
      CrashTriple (fun state => state = workspace) program
        (fun value state => along workspace state ∧ done value state)
        (fun _ state => along workspace state) (along workspace))
    (hinv : ∀ workspace after, Undergoing context plan before applied journal workspace →
      pre workspace → along workspace after →
      Undergoing context plan before applied journal after)
    (hpost : ∀ value workspace after, Undergoing context plan before applied journal workspace →
      pre workspace → along workspace after → done value after → post value after) :
    Guarded (Undergoing context plan before applied journal) pre program post := by
  apply Guarded.of_state
  intro workspace hworkspace hpre
  apply (h workspace hworkspace hpre).weaken (fun _ hstate => hstate.2)
  · exact fun value state hstate => ⟨hinv _ _ hworkspace hpre hstate.1,
      hpost _ _ _ hworkspace hpre hstate.1 hstate.2⟩
  · exact fun _ state hstate => hinv _ _ hworkspace hpre hstate
  · exact fun state hstate => hinv _ _ hworkspace hpre hstate

theorem guardDiscard_guarded {inv pre : Workspace → Prop} {kind : OperationPlanKind}
    {path : TrackedUnityFilePath} :
    Guarded inv pre (guardDiscard context kind path) fun _ => pre := by
  rw [guardDiscard]
  split
  · exact .inspect fun _ _ _ _ hpre => hpre
  · exact .pure fun _ _ hpre => hpre

end Undergoing

end CheckPo
