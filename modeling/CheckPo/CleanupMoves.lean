/-
How a cleanup moves the finished transactions to a new batch in the trash: each rescue
before its transaction, so that wherever this is cut short, a transaction that is gone has no
rescue.
-/
import CheckPo.CleanupPlan

namespace CheckPo

open FileTree

section Moves

variable {reader : JournalReader} {root : String} {start files before : RepositoryFiles}

/-! Directories. -/

theorem ensureComponent_run_directory {path : Path} (h : files.entry path = some .directory) :
    (ensureComponent root path).run files = ([], .ok ()) := by
  rw [ensureComponent, Durable.inspect_bind_run]
  dsimp only
  rw [h]
  rfl

theorem ensureComponent_run_none {path : Path} (h : files.entry path = none) :
    (ensureComponent root path).run files = ([files.put path .directory], .ok ()) := by
  rw [ensureComponent, Durable.inspect_bind_run]
  dsimp only
  rw [h]
  rfl

/-- Where the parents are there, at most the directory itself is made. -/
theorem forM_ensureComponent_run {parents : List Path} {path : Path}
    (hparents : ∀ parent ∈ parents, files.entry parent = some .directory)
    (hpath : ∀ found, files.entry path = some found → found = .directory) :
    ((parents ++ [path]).forM (ensureComponent root)).run files =
      (if files.entry path = none then [files.put path .directory] else [], .ok ()) := by
  induction parents with
  | nil =>
      rw [List.nil_append, List.forM_eq_forM, List.forM_cons]
      rcases hentry : files.entry path with _ | found
      · rw [Durable.bind_run_ok (ensureComponent_run_none hentry)]
        rfl
      · rw [hpath found hentry] at hentry
        rw [Durable.bind_run_ok (ensureComponent_run_directory hentry)]
        rfl
  | cons parent parents ih =>
      rw [List.cons_append, List.forM_eq_forM, List.forM_cons, Durable.bind_run_ok
        (ensureComponent_run_directory (hparents parent List.mem_cons_self)), Durable.last_nil,
        ← List.forM_eq_forM, ih fun other hother => hparents other (List.mem_cons_of_mem _ hother)]
      rfl

theorem moveRepoDirectoryAnchored_run {source parent : Path} {name : String}
    (hsource : files.entry source = some .directory)
    (hparent : files.entry parent = some .directory)
    (hfree : files.entry (parent ++ [name]) = none) :
    (moveRepoDirectoryAnchored root source (parent ++ [name])).run files =
      ([files.move source (parent ++ [name])], .ok ()) := by
  have hopenSource : openDirectoryForMutation root source files = .ok () := by
    rw [openDirectoryForMutation, hsource]
  have hopenParent : openDirectoryForMutation root (parent ++ [name]).dropLast files = .ok () := by
    rw [List.dropLast_concat, openDirectoryForMutation, hparent]
  rw [moveRepoDirectoryAnchored, Durable.inspect_bind_run, hopenSource]
  dsimp only
  rw [Durable.inspect_bind_run, hopenParent]
  dsimp only
  rw [Durable.inspect_bind_run]
  dsimp only
  rw [hfree]
  rfl

/-! Moving the transactions. -/

/-- The transactions of `rest` are still to be moved into the batch. -/
structure MoveState (reader : JournalReader) (root : String) (start before : RepositoryFiles)
    (batch : String) (rest : List String) (files : RepositoryFiles) : Prop where
  state : CleanupState reader root start files
  directory : files.entry (transactionCleanupTrashDir ++ [batch]) = some .directory
  children : ∀ name, files.entry (transactionCleanupTrashDir ++ [name]) =
    before.entry (transactionCleanupTrashDir ++ [name])
  nodup : rest.Nodup
  all : ∀ id, Finished reader root start id →
    files.entry (journalsDir ++ [id]) ≠ none → id ∈ rest
  there : ∀ id ∈ rest, Finished reader root start id ∧
    files.entry (journalsDir ++ [id]) = some .directory
  free : ∀ id ∈ rest, files.entry (transactionCleanupTrashDir ++ [batch] ++ [id]) = none ∧
    (files.entry (recoveryRescuesDir ++ [id]) ≠ none →
      files.entry (transactionCleanupTrashDir ++ [batch] ++ [s!"rescue-{id}"]) = none)

theorem batch_prefix_iff {batch left right : String} :
    transactionCleanupTrashDir ++ [batch] ++ [left] <+:
      transactionCleanupTrashDir ++ [batch] ++ [right] ↔ left = right := by
  rw [List.prefix_append_right_inj, List.cons_prefix_cons]
  exact ⟨fun h => h.1, fun h => ⟨h, List.nil_prefix⟩⟩

theorem not_batch_start {batch name child : String} :
    ¬ transactionCleanupTrashDir ++ [batch] ++ [name] <+: transactionCleanupTrashDir ++ [child] := by
  intro h
  have hlength := h.length_le
  simp at hlength

theorem bundle_not_prefix_trash {id : String} {source : Path}
    (hsource : source = journalsDir ++ [id] ∨ source = recoveryRescuesDir ++ [id]) (rest : Path) :
    ¬ source <+: transactionCleanupTrashDir ++ rest := by
  rcases hsource with rfl | rfl
  · simp [transactionCleanupTrashDir, journalsDir]
  · simp [transactionCleanupTrashDir, recoveryRescuesDir]

theorem batch_not_prefix_bundle {batch name id : String} :
    ¬ transactionCleanupTrashDir ++ [batch] ++ [name] <+: journalsDir ++ [id] ∧
      ¬ transactionCleanupTrashDir ++ [batch] ++ [name] <+: recoveryRescuesDir ++ [id] := by
  simp [transactionCleanupTrashDir, journalsDir, recoveryRescuesDir]

theorem rescueName_injective {left right : String} (h : s!"rescue-{left}" = s!"rescue-{right}") :
    left = right :=
  String.append_right_inj _ |>.mp h

theorem rescueName_ne {left right : String} (hleft : validateTransactionId left = .ok ())
    (hright : validateTransactionId right = .ok ()) : s!"rescue-{left}" ≠ right := by
  intro heq
  have hlength : ("rescue-" ++ left).toList.length = right.toList.length :=
    congrArg (fun text : String => text.toList.length) heq
  rw [String.toList_append, List.length_append, validateTransactionId_length hleft,
    validateTransactionId_length hright] at hlength
  exact absurd hlength (by decide)

/-- The ids of finished transactions are ids. -/
theorem Finished.validateTransactionId (hready : CleanupReady reader root start) {id : String}
    (h : Finished reader root start id) : validateTransactionId id = .ok () := by
  rcases h with ⟨journal, ⟨hdirectory, -⟩, -⟩
  exact (hready.journals id hdirectory).1

namespace MoveState

variable {batch id : String} {rest : List String}

theorem rescue_moved (hready : CleanupReady reader root start)
    (h : MoveState reader root start before batch (id :: rest) files)
    (hpayload : Payload files (recoveryRescuesDir ++ [id])) :
    MoveState reader root start before batch (id :: rest)
      (files.move (recoveryRescuesDir ++ [id])
        (transactionCleanupTrashDir ++ [batch] ++ [s!"rescue-{id}"])) := by
  have hfinished := (h.there id List.mem_cons_self).1
  have hvalid := hfinished.validateTransactionId hready
  have htrash : ∀ path, ¬ recoveryRescuesDir ++ [id] <+: transactionCleanupTrashDir ++ path :=
    bundle_not_prefix_trash (.inr rfl)
  have hjournal : ∀ other, (files.move (recoveryRescuesDir ++ [id])
      (transactionCleanupTrashDir ++ [batch] ++ [s!"rescue-{id}"])).entry (journalsDir ++ [other]) =
        files.entry (journalsDir ++ [other]) := fun other =>
    entry_move_of_not (by simp [journalsDir, recoveryRescuesDir]) batch_not_prefix_bundle.1
  constructor
  case state => exact h.state.moved hfinished (.inr rfl) hpayload h.directory
  case directory =>
    rw [entry_move_of_not (htrash _) not_batch_start]
    exact h.directory
  case children =>
    intro name
    rw [entry_move_of_not (htrash _) not_batch_start]
    exact h.children name
  case nodup => exact h.nodup
  case all =>
    intro other hother hentry
    rw [hjournal] at hentry
    exact h.all other hother hentry
  case there =>
    intro other hother
    rw [hjournal]
    exact h.there other hother
  case free =>
    intro other hother
    have hothers := (h.there other hother).1.validateTransactionId hready
    constructor
    · rw [entry_move_of_not (by rw [List.append_assoc]; exact htrash _)]
      · exact (h.free other hother).1
      · rw [batch_prefix_iff]
        exact rescueName_ne hvalid hothers
    · by_cases heq : other = id
      · intro hentry
        rw [heq, entry_move_source (List.prefix_refl _) batch_not_prefix_bundle.2] at hentry
        exact absurd rfl hentry
      · intro hentry
        rw [entry_move_of_not (fun hstarts => heq (rescue_prefix_iff.mp hstarts).symm)
          batch_not_prefix_bundle.2] at hentry
        rw [entry_move_of_not (by rw [List.append_assoc]; exact htrash _)]
        · exact (h.free other hother).2 hentry
        · rw [batch_prefix_iff]
          exact fun hname => heq (rescueName_injective hname).symm

theorem transaction_moved (hready : CleanupReady reader root start)
    (h : MoveState reader root start before batch (id :: rest) files)
    (hrescue : files.entry (recoveryRescuesDir ++ [id]) = none) :
    MoveState reader root start before batch rest
      (files.move (journalsDir ++ [id]) (transactionCleanupTrashDir ++ [batch] ++ [id])) := by
  rcases h.there id List.mem_cons_self with ⟨hfinished, hdirectory⟩
  have hvalid := hfinished.validateTransactionId hready
  have hpresent : Finished reader root files id :=
    h.state.finished_iff.mpr ⟨hfinished, by rw [hdirectory]; exact nofun⟩
  have hpayload : Payload files (journalsDir ++ [id]) :=
    ⟨hdirectory, (h.state.ready hready).payload id hpresent⟩
  rcases List.nodup_cons.mp h.nodup with ⟨hnot, hnodup⟩
  have htrash : ∀ path, ¬ journalsDir ++ [id] <+: transactionCleanupTrashDir ++ path :=
    bundle_not_prefix_trash (.inl rfl)
  have hjournal : ∀ other, other ≠ id → (files.move (journalsDir ++ [id])
      (transactionCleanupTrashDir ++ [batch] ++ [id])).entry (journalsDir ++ [other]) =
        files.entry (journalsDir ++ [other]) := fun other hne =>
    entry_move_of_not (fun hstarts => hne (journal_prefix_iff.mp hstarts).symm)
      batch_not_prefix_bundle.1
  constructor
  case state =>
    exact h.state.moved hfinished (.inl ⟨rfl, h.state.closed.free hrescue⟩) hpayload h.directory
  case directory =>
    rw [entry_move_of_not (htrash _) not_batch_start]
    exact h.directory
  case children =>
    intro name
    rw [entry_move_of_not (htrash _) not_batch_start]
    exact h.children name
  case nodup => exact hnodup
  case all =>
    intro other hother hentry
    by_cases heq : other = id
    · rw [heq, entry_move_source (List.prefix_refl _) batch_not_prefix_bundle.1] at hentry
      exact absurd rfl hentry
    · rw [hjournal other heq] at hentry
      exact List.mem_of_ne_of_mem heq (h.all other hother hentry)
  case there =>
    intro other hother
    rw [hjournal other fun heq => hnot (heq ▸ hother)]
    exact h.there other (List.mem_cons_of_mem _ hother)
  case free =>
    intro other hother
    have hmem := List.mem_cons_of_mem id hother
    have hothers := (h.there other hmem).1.validateTransactionId hready
    constructor
    · rw [entry_move_of_not (by rw [List.append_assoc]; exact htrash _)]
      · exact (h.free other hmem).1
      · rw [batch_prefix_iff]
        rintro rfl
        exact hnot hother
    · intro hentry
      rw [entry_move_of_not (by simp [journalsDir, recoveryRescuesDir])
        batch_not_prefix_bundle.2] at hentry
      rw [entry_move_of_not (by rw [List.append_assoc]; exact htrash _)]
      · exact (h.free other hmem).2 hentry
      · rw [batch_prefix_iff]
        exact fun hname => rescueName_ne hothers hvalid hname.symm

/-- The rescue goes first, so a transaction that is gone has no rescue. -/
theorem moveToBatch_triple (hready : CleanupReady reader root start) :
    CrashTriple (MoveState reader root start before batch (id :: rest))
      (moveToBatch root (transactionCleanupTrashDir ++ [batch]) id)
      (fun _ => MoveState reader root start before batch rest) (fun _ _ => False)
      (CleanupState reader root start) := by
  intro files h
  rcases h.there id List.mem_cons_self with ⟨hfinished, hdirectory⟩
  have hpresent : Finished reader root files id :=
    h.state.finished_iff.mpr ⟨hfinished, by rw [hdirectory]; exact nofun⟩
  rcases (h.state.ready hready).rescue id hpresent with hnone | hpayload
  · have hrun : (moveToBatch root (transactionCleanupTrashDir ++ [batch]) id).run files =
        ([files.move (journalsDir ++ [id]) (transactionCleanupTrashDir ++ [batch] ++ [id])],
          .ok ()) := by
      have hmove := @moveRepoDirectoryAnchored_run root files _ _ _ hdirectory h.directory
        (h.free id List.mem_cons_self).1
      rw [moveToBatch, Durable.inspect_bind_run]
      dsimp only
      rw [hnone]
      exact hmove
    have hafter := h.transaction_moved hready hnone
    rw [Durable.final, hrun]
    exact ⟨fun _ hmem => List.mem_singleton.mp hmem ▸ hafter.state, hafter⟩
  · have hmiddle := h.rescue_moved hready hpayload
    have hgone : (files.move (recoveryRescuesDir ++ [id])
        (transactionCleanupTrashDir ++ [batch] ++ [s!"rescue-{id}"])).entry
          (recoveryRescuesDir ++ [id]) = none :=
      entry_move_source (List.prefix_refl _) batch_not_prefix_bundle.2
    have hafter := hmiddle.transaction_moved hready hgone
    have hrescueEntry : files.entry (recoveryRescuesDir ++ [id]) ≠ none := by
      rw [hpayload.1]
      exact nofun
    have hrescue := @moveRepoDirectoryAnchored_run root files _ _ _ hpayload.1 h.directory
      ((h.free id List.mem_cons_self).2 hrescueEntry)
    have hmove := @moveRepoDirectoryAnchored_run root _ _ _ _
      (hmiddle.there id List.mem_cons_self).2 hmiddle.directory
      (hmiddle.free id List.mem_cons_self).1
    have hrun : (moveToBatch root (transactionCleanupTrashDir ++ [batch]) id).run files =
        ([files.move (recoveryRescuesDir ++ [id])
            (transactionCleanupTrashDir ++ [batch] ++ [s!"rescue-{id}"]),
          (files.move (recoveryRescuesDir ++ [id])
            (transactionCleanupTrashDir ++ [batch] ++ [s!"rescue-{id}"])).move
              (journalsDir ++ [id]) (transactionCleanupTrashDir ++ [batch] ++ [id])], .ok ()) := by
      rw [moveToBatch, Durable.inspect_bind_run]
      dsimp only
      rw [hpayload.1]
      dsimp only
      rw [Durable.bind_run_ok hrescue, Durable.last_singleton, hmove]
      rfl
    rw [Durable.final, hrun]
    refine ⟨fun state hmem => ?_, hafter⟩
    rcases List.mem_cons.mp hmem with rfl | hmem
    · exact hmiddle.state
    · exact List.mem_singleton.mp hmem ▸ hafter.state

end MoveState

/-! The trash. -/

/-- A directory that is the trash, or in it, is there afterwards; nothing else is new. -/
theorem ensureAnchoredDirectory_triple (h : CleanupState reader root start files)
    {parents : List Path} {parent : Path} {name : String}
    (hparts : (parent ++ [name]).inits.tail = parents ++ [parent ++ [name]])
    (hparents : ∀ path ∈ parents, files.entry path = some .directory)
    (hparent : files.entry parent = some .directory)
    (hpath : ∀ found, files.entry (parent ++ [name]) = some found → found = .directory)
    (htrash : transactionCleanupTrashDir <+: parent ++ [name]) :
    CrashTriple (fun state => state = files) (ensureAnchoredDirectory root (parent ++ [name]))
      (fun _ state => CleanupState reader root start state ∧
        state.entry (parent ++ [name]) = some .directory ∧
        ∀ path, path ≠ parent ++ [name] → state.entry path = files.entry path)
      (fun _ _ => False) (CleanupState reader root start) := by
  rintro state rfl
  have hrun := @forM_ensureComponent_run root state parents _ hparents hpath
  rw [← hparts] at hrun
  rw [Durable.final, ensureAnchoredDirectory, hrun]
  rcases hentry : state.entry (parent ++ [name]) with _ | found
  · have hput := h.put_directory hparent htrash hentry
    rw [if_pos rfl]
    exact ⟨fun _ hmem => List.mem_singleton.mp hmem ▸ hput, hput, entry_put_self,
      fun path hne => entry_put_of_ne hne⟩
  · rw [if_neg (Option.some_ne_none _)]
    rw [hpath found hentry] at hentry
    exact ⟨List.forall_mem_nil _, h, hentry, fun _ _ => rfl⟩

/-- A new batch, to which all finished transactions are moved. -/
structure MovedState (reader : JournalReader) (root : String) (start before : RepositoryFiles)
    (batches : List String) (files : RepositoryFiles) : Prop where
  state : CleanupState reader root start files
  none_left : ∀ id, Finished reader root start id → files.entry (journalsDir ++ [id]) = none
  fresh : ∀ batch ∈ batches, before.entry (transactionCleanupTrashDir ++ [batch]) = none
  nodup : batches.Nodup
  children : ∀ name, files.entry (transactionCleanupTrashDir ++ [name]) ≠ none ↔
    before.entry (transactionCleanupTrashDir ++ [name]) ≠ none ∨ name ∈ batches

/-- The trash is there with a new batch, and nothing else has changed. -/
structure BatchMade (reader : JournalReader) (root : String) (start before : RepositoryFiles)
    (batch : String) (files : RepositoryFiles) : Prop where
  state : CleanupState reader root start files
  directory : files.entry (transactionCleanupTrashDir ++ [batch]) = some .directory
  empty : ∀ name, files.entry (transactionCleanupTrashDir ++ [batch] ++ [name]) = none
  fresh : before.entry (transactionCleanupTrashDir ++ [batch]) = none
  journal : ∀ id, files.entry (journalsDir ++ [id]) = before.entry (journalsDir ++ [id])
  child : ∀ name, name ≠ batch → files.entry (transactionCleanupTrashDir ++ [name]) =
    before.entry (transactionCleanupTrashDir ++ [name])

section Batch

variable {middle : RepositoryFiles} {batch : String} {ids : List String}

/-- The trash may have been made just before the batch. -/
theorem ensureBatch_triple (hstate : CleanupState reader root start middle)
    (hjournals : middle.entry ["journals"] = some .directory)
    (hdirectory : middle.entry transactionCleanupTrashDir = some .directory)
    (hsame : ∀ path, path ≠ transactionCleanupTrashDir → middle.entry path = files.entry path)
    (hfree : middle.entry (transactionCleanupTrashDir ++ [batch]) = none) :
    CrashTriple (fun state => state = middle)
      (ensureAnchoredDirectory root (transactionCleanupTrashDir ++ [batch]))
      (fun _ => BatchMade reader root start files batch) (fun _ _ => False)
      (CleanupState reader root start) := by
  have hmake := @ensureAnchoredDirectory_triple _ root _ _ hstate
    [["journals"], transactionCleanupTrashDir] transactionCleanupTrashDir batch rfl
    (List.forall_mem_cons.mpr ⟨hjournals, List.forall_mem_singleton.mpr hdirectory⟩) hdirectory
    (fun found hfound => by rw [hfree] at hfound; cases hfound) (List.prefix_append _ _)
  have hchild : ∀ name, middle.entry (transactionCleanupTrashDir ++ [name]) =
      files.entry (transactionCleanupTrashDir ++ [name]) := fun name =>
    hsame _ fun heq => List.cons_ne_nil _ _ (List.append_right_eq_self.mp heq)
  have hbundle : ∀ (id : String) (rest : Path),
      journalsDir ++ [id] ≠ transactionCleanupTrashDir ++ rest := by
    intro id rest
    simp [journalsDir, transactionCleanupTrashDir]
  refine hmake.weaken (fun _ heq => heq) (fun _ made hmade => ?_) (fun _ _ h => h) fun _ h => h
  rcases hmade with ⟨hmadeState, hmadeDirectory, hmadeSame⟩
  constructor
  case state => exact hmadeState
  case directory => exact hmadeDirectory
  case empty =>
    intro name
    have hne : transactionCleanupTrashDir ++ [batch] ++ [name] ≠
        transactionCleanupTrashDir ++ [batch] :=
      fun heq => List.cons_ne_nil _ _ (List.append_right_eq_self.mp heq)
    rw [hmadeSame _ hne]
    exact hstate.closed.free hfree _ (List.prefix_append _ _)
  case fresh => rw [← hchild, hfree]
  case journal =>
    intro id
    rw [hmadeSame _ (hbundle id _), hsame _ fun heq => hbundle id [] heq]
  case child =>
    intro name hname
    have hne : transactionCleanupTrashDir ++ [name] ≠ transactionCleanupTrashDir ++ [batch] :=
      fun heq => hname (List.cons.inj (List.append_cancel_left heq)).1
    rw [hmadeSame _ hne, hchild]

theorem BatchMade.moveState (hmade : BatchMade reader root start files batch after)
    (h : CleanupState reader root start files)
    (hids : ∀ id, id ∈ ids ↔ Finished reader root files id) (hnodup : ids.Nodup) :
    MoveState reader root start after batch ids after where
  state := hmade.state
  directory := hmade.directory
  children _ := rfl
  nodup := hnodup
  all id hid hentry := by
    rw [hmade.journal] at hentry
    exact (hids id).mpr (h.finished_iff.mpr ⟨hid, hentry⟩)
  there id hid := by
    have hfinished := (hids id).mp hid
    rw [hmade.journal]
    refine ⟨(h.finished_iff.mp hfinished).1, ?_⟩
    rcases hfinished with ⟨journal, ⟨hdirectory, -⟩, -⟩
    exact hdirectory
  free id _ := ⟨hmade.empty id, fun _ => hmade.empty _⟩

/-- When no transaction waits any more, all finished ones are in the batch. -/
theorem BatchMade.movedState {made : RepositoryFiles}
    (hmade : BatchMade reader root start files batch made)
    (h : MoveState reader root start made batch [] after) :
    MovedState reader root start files [batch] after where
  state := h.state
  none_left id hid := by
    by_contra hentry
    exact absurd (h.all id hid hentry) List.not_mem_nil
  fresh name hname := by
    rw [List.mem_singleton.mp hname]
    exact hmade.fresh
  nodup := List.nodup_singleton _
  children name := by
    rw [h.children, List.mem_singleton]
    by_cases hname : name = batch
    · rw [hname, hmade.directory]
      exact ⟨fun _ => .inr rfl, fun _ => Option.some_ne_none _⟩
    · rw [hmade.child name hname]
      exact ⟨.inl, fun h => h.resolve_right hname⟩

end Batch

variable {uuid : RepositoryFiles → Path → Nat → String}

theorem moveActiveRoots_triple (hready : CleanupReady reader root start)
    (huuid : UnusedIds uuid) (h : CleanupState reader root start files) {ids : List String}
    (hids : ∀ id, id ∈ ids ↔ Finished reader root files id) (hnodup : ids.Nodup) :
    CrashTriple (fun state => state = files) (moveActiveRoots root uuid ids)
      (MovedState reader root start files) (fun _ _ => False)
      (CleanupState reader root start) := by
  have hjournals : ∀ state, CleanupState reader root start state →
      state.entry ["journals"] = some .directory := fun state hstate =>
    entry_of_layout (hstate.layout_eq_ok hready.layout) (by decide)
  rw [moveActiveRoots]
  apply CrashTriple.ite
  · rintro rfl
    apply CrashTriple.pure
    rintro state rfl
    refine ⟨h, fun id hid => ?_, List.forall_mem_nil _, List.nodup_nil, fun name => by simp⟩
    by_contra hentry
    exact absurd ((hids id).mpr (h.finished_iff.mpr ⟨hid, hentry⟩)) List.not_mem_nil
  · intro _
    have htrash := @ensureAnchoredDirectory_triple _ root _ _ h [["journals"]] ["journals"]
      "transaction-cleanup-trash" rfl (by simpa using hjournals files h) (hjournals files h)
      h.trash.directory (List.prefix_refl _)
    refine htrash.bind fun _ => CrashTriple.of_state fun middle hmiddle => ?_
    rcases hmiddle with ⟨hstate, hdirectory, hsame⟩
    generalize hbatch : uuid middle transactionCleanupTrashDir 0 = batch
    have hfree : middle.entry (transactionCleanupTrashDir ++ [batch]) = none := by
      have hunused := huuid.entry_eq_none middle transactionCleanupTrashDir
        transactionCleanupTrashDir 0 "" ""
      rw [hbatch, String.empty_append, String.append_empty] at hunused
      exact hunused
    have hrest : CrashTriple (fun state => state = middle) (do
          ensureAnchoredDirectory root (transactionCleanupTrashDir ++ [batch])
          ids.forM (moveToBatch root (transactionCleanupTrashDir ++ [batch]))
          return [batch]) (MovedState reader root start files) (fun _ _ => False)
        (CleanupState reader root start) := by
      refine (ensureBatch_triple hstate (hjournals middle hstate) hdirectory hsame hfree).bind
        fun _ => CrashTriple.of_state fun made hmade => ?_
      have hloop := @CrashTriple.forM _ _ _ _ _ (fun rest => MoveState reader root start made
        batch rest) _ (fun id rest => MoveState.moveToBatch_triple hready) ids
      have hstart : ∀ state, state = made → MoveState reader root start made batch ids state := by
        rintro _ rfl
        exact hmade.moveState h hids hnodup
      exact (hloop.weaken hstart (fun _ _ h => h) (fun _ _ h => h) fun _ h => h).bind fun _ =>
        CrashTriple.pure fun state hmoved => hmade.movedState hmoved
    rintro state rfl
    rw [Durable.final, Durable.inspect_bind_run]
    dsimp only
    rw [hbatch]
    exact hrest state rfl

end Moves

end CheckPo
