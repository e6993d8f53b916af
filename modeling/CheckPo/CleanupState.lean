/-
What a cleanup of transactions may have done to a repository when it is cut short: the
unfinished transactions are untouched, a finished one is there with its journal or is gone
with its rescue, and the trash holds only directories of files.
-/
import CheckPo.RecoveryRescue
import CheckPo.TransactionCleanup
import CheckPo.TreeRemoval

namespace CheckPo

open FileTree

/-- The size that counts files, and the one that counts bytes. -/
def fileCountSize : TreeEntry Bytes → Nat
  | .file _ => 1
  | _ => 0

def fileBytesSize : TreeEntry Bytes → Nat
  | .file content => content.length
  | _ => 0

section State

variable (reader : JournalReader) (root : String)

/-- The directory of a transaction, with a journal that can be read. -/
def JournalAt (files : RepositoryFiles) (id : String) (journal : TransactionJournal) : Prop :=
  files.entry (journalsDir ++ [id]) = some .directory ∧
    ∃ bytes, files.entry (journalsDir ++ [id, "journal.json"]) = some (.file bytes) ∧
      identifiedJournal reader root id bytes = .ok journal

/-- A transaction that is committed or recovered. -/
def Finished (files : RepositoryFiles) (id : String) : Prop :=
  ∃ journal, JournalAt reader root files id journal ∧ journal.state.isTerminal = true

/-- A payload is a directory of files and directories. -/
def Payload (files : RepositoryFiles) (top : Path) : Prop :=
  files.entry top = some .directory ∧ files.PlainBelow top

/-- The trash is a directory of payloads, if it is there. -/
structure TrashSound (files : RepositoryFiles) : Prop where
  directory : ∀ found, files.entry transactionCleanupTrashDir = some found → found = .directory
  plain : files.PlainBelow transactionCleanupTrashDir
  children : ∀ name found, files.entry (transactionCleanupTrashDir ++ [name]) = some found →
    found = .directory

/-- A repository whose transactions have journals that can be read, and whose finished
transactions have payloads and maybe rescues. -/
structure CleanupReady (files : RepositoryFiles) : Prop where
  closed : files.Closed
  layout : validateRepositoryLayout root files = .ok ()
  trash : TrashSound files
  journals : ∀ id, files.entry (journalsDir ++ [id]) = some .directory →
    validateTransactionId id = .ok () ∧ ∃ journal, JournalAt reader root files id journal
  payload : ∀ id, Finished reader root files id → files.PlainBelow (journalsDir ++ [id])
  rescue : ∀ id, Finished reader root files id →
    files.entry (recoveryRescuesDir ++ [id]) = none ∨ Payload files (recoveryRescuesDir ++ [id])
  fileCount : files.weight fileCountSize < 2 ^ 64
  fileBytes : files.weight fileBytesSize < 2 ^ 64

def Same (start files : RepositoryFiles) (top : Path) : Prop :=
  ∀ path, top <+: path → files.entry path = start.entry path

/-- Nothing of a path is where a cleanup works. -/
def Untouched (start : RepositoryFiles) (path : Path) : Prop :=
  ¬ transactionCleanupTrashDir <+: path ∧ ∀ id, Finished reader root start id →
    ¬ journalsDir ++ [id] <+: path ∧ ¬ recoveryRescuesDir ++ [id] <+: path

/-- A finished transaction is still there, with its rescue or without it, or both are gone. -/
def BundleKept (start files : RepositoryFiles) (id : String) : Prop :=
  (Same start files (journalsDir ++ [id]) ∧
      (Same start files (recoveryRescuesDir ++ [id]) ∨ files.Free (recoveryRescuesDir ++ [id]))) ∨
    (files.Free (journalsDir ++ [id]) ∧ files.Free (recoveryRescuesDir ++ [id]))

structure CleanupState (start files : RepositoryFiles) : Prop where
  closed : files.Closed
  trash : TrashSound files
  weight : ∀ size : TreeEntry Bytes → Nat, size .directory = 0 →
    files.weight size ≤ start.weight size
  frame : ∀ path, Untouched reader root start path → files.entry path = start.entry path
  bundle : ∀ id, Finished reader root start id → BundleKept start files id

end State

variable {reader : JournalReader} {root : String} {start files after : RepositoryFiles}

/-! Names of transactions. -/

theorem validateTransactionId_length {id : String} (h : validateTransactionId id = .ok ()) :
    id.toList.length = 32 := by
  rw [validateTransactionId, except_ensure_eq_ok] at h
  rw [isLowerHex, Bool.and_eq_true, beq_iff_eq] at h
  exact h.1.1

theorem journal_prefix_iff {left right : String} {rest : Path} :
    journalsDir ++ [left] <+: journalsDir ++ right :: rest ↔ left = right := by
  rw [List.prefix_append_right_inj, List.cons_prefix_cons]
  exact ⟨fun h => h.1, fun h => ⟨h, List.nil_prefix⟩⟩

theorem rescue_prefix_iff {left right : String} {rest : Path} :
    recoveryRescuesDir ++ [left] <+: recoveryRescuesDir ++ right :: rest ↔ left = right := by
  rw [List.prefix_append_right_inj, List.cons_prefix_cons]
  exact ⟨fun h => h.1, fun h => ⟨h, List.nil_prefix⟩⟩

theorem identifiedJournal_eq_ok {id : String} {bytes : Bytes} {journal : TransactionJournal}
    (h : identifiedJournal reader root id bytes = .ok journal) : journal.transactionId = id := by
  rw [identifiedJournal, except_bind_eq_ok] at h
  rcases h with ⟨read, -, h⟩
  rw [except_bind_eq_ok] at h
  rcases h with ⟨⟨⟩, hidentity, h⟩
  rw [except_pure_eq_ok] at h
  rw [← h]
  simp only [validateTransactionJournalIdentity, except_guard_eq_ok, not_not] at hidentity
  exact hidentity.2.2.1.symm

/-- The paths of a transaction that is not finished are untouched. -/
theorem untouched_journal {id : String} {rest : Path} (h : ¬ Finished reader root start id) :
    Untouched reader root start (journalsDir ++ id :: rest) := by
  refine ⟨by simp [transactionCleanupTrashDir, journalsDir], fun other hother => ⟨?_, ?_⟩⟩
  · rw [journal_prefix_iff]
    rintro rfl
    exact h hother
  · simp [recoveryRescuesDir, journalsDir]

theorem untouched_rescue {id : String} {rest : Path} (h : ¬ Finished reader root start id) :
    Untouched reader root start (recoveryRescuesDir ++ id :: rest) := by
  refine ⟨by simp [transactionCleanupTrashDir, recoveryRescuesDir], fun other hother => ⟨?_, ?_⟩⟩
  · simp [recoveryRescuesDir, journalsDir]
  · rw [rescue_prefix_iff]
    rintro rfl
    exact h hother

/-- Where neither trash nor a name in the two directories is above, nothing is touched. -/
theorem untouched_short {path : Path} (htrash : ¬ transactionCleanupTrashDir <+: path)
    (hjournals : ∀ id, ¬ journalsDir ++ [id] <+: path)
    (hrescues : ∀ id, ¬ recoveryRescuesDir ++ [id] <+: path) :
    Untouched reader root start path :=
  ⟨htrash, fun id _ => ⟨hjournals id, hrescues id⟩⟩

/-- The paths of a bundle are not in the trash. -/
theorem bundle_apart (id : String) (rest : Path) :
    ¬ transactionCleanupTrashDir <+: journalsDir ++ id :: rest ∧
      ¬ transactionCleanupTrashDir <+: recoveryRescuesDir ++ id :: rest := by
  simp [transactionCleanupTrashDir, journalsDir, recoveryRescuesDir]

theorem BundleKept.congr {id : String} (hkept : BundleKept start files id)
    (hjournal : ∀ rest, after.entry (journalsDir ++ id :: rest) =
      files.entry (journalsDir ++ id :: rest))
    (hrescue : ∀ rest, after.entry (recoveryRescuesDir ++ id :: rest) =
      files.entry (recoveryRescuesDir ++ id :: rest)) : BundleKept start after id := by
  have hjournal' : ∀ path, journalsDir ++ [id] <+: path →
      after.entry path = files.entry path := by
    rintro path ⟨rest, rfl⟩
    rw [List.append_assoc]
    exact hjournal rest
  have hrescue' : ∀ path, recoveryRescuesDir ++ [id] <+: path →
      after.entry path = files.entry path := by
    rintro path ⟨rest, rfl⟩
    rw [List.append_assoc]
    exact hrescue rest
  rcases hkept with ⟨hsame, hsame' | hfree⟩ | ⟨hgone, hfree⟩
  · exact .inl ⟨fun path hpath => (hjournal' path hpath).trans (hsame path hpath),
      .inl fun path hpath => (hrescue' path hpath).trans (hsame' path hpath)⟩
  · exact .inl ⟨fun path hpath => (hjournal' path hpath).trans (hsame path hpath),
      .inr fun path hpath => (hrescue' path hpath).trans (hfree path hpath)⟩
  · exact .inr ⟨fun path hpath => (hjournal' path hpath).trans (hgone path hpath),
      fun path hpath => (hrescue' path hpath).trans (hfree path hpath)⟩

theorem entry_of_layout (h : validateRepositoryLayout root files = .ok ()) {path : Path}
    (hpath : path ∈ layoutDirectories) : files.entry path = some .directory := by
  rw [validateRepositoryLayout, except_bind_eq_ok] at h
  rcases h with ⟨⟨⟩, hdirectories, -⟩
  have hvalid := forM_eq_ok_iff.mp hdirectories path hpath
  rw [RepositoryFiles.ensureRegularDirectoryNoFollow] at hvalid
  split at hvalid
  · cases hvalid
  · assumption
  · cases hvalid

/-! A move into a batch of the trash. -/

section Moved

variable {batch name : String} {source path : Path}

theorem below_trash_of_target
    (h : transactionCleanupTrashDir ++ [batch] ++ [name] <+: path) :
    StrictlyBelow transactionCleanupTrashDir path :=
  below_of_child ((List.prefix_append _ _).trans h)

theorem entry_moved_outside (htrash : ¬ transactionCleanupTrashDir <+: path)
    (hpath : ¬ source <+: path) :
    (files.move source (transactionCleanupTrashDir ++ [batch] ++ [name])).entry path =
      files.entry path :=
  entry_move_of_not hpath fun htarget => htrash (below_trash_of_target htarget).1

theorem entry_moved_source (htrash : ¬ transactionCleanupTrashDir <+: path)
    (hpath : source <+: path) :
    (files.move source (transactionCleanupTrashDir ++ [batch] ++ [name])).entry path = none :=
  entry_move_source hpath fun htarget => htrash (below_trash_of_target htarget).1

/-- A move into a batch changes nothing of the batches themselves. -/
theorem entry_moved_batch (hpath : ¬ source <+: path)
    (hlength : path.length ≤ transactionCleanupTrashDir.length + 1) :
    (files.move source (transactionCleanupTrashDir ++ [batch] ++ [name])).entry path =
      files.entry path := by
  apply entry_move_of_not hpath
  intro htarget
  have hle := htarget.length_le
  rw [List.append_assoc, List.length_append] at hle
  simp only [List.cons_append, List.nil_append, List.length_cons, List.length_nil] at hle
  omega

theorem bundle_not_start {id : String}
    (h : source = journalsDir ++ [id] ∨ source = recoveryRescuesDir ++ [id]) :
    ∀ path, transactionCleanupTrashDir <+: path → ¬ source <+: path := by
  rintro path ⟨rest, rfl⟩
  rcases h with rfl | rfl
  · simp [transactionCleanupTrashDir, journalsDir]
  · simp [transactionCleanupTrashDir, recoveryRescuesDir]

/-- The trash stays sound when a payload is moved into a batch. -/
theorem TrashSound.moved (h : TrashSound files)
    (hapart : ∀ path, transactionCleanupTrashDir <+: path → ¬ source <+: path)
    (hpayload : Payload files source) :
    TrashSound (files.move source (transactionCleanupTrashDir ++ [batch] ++ [name])) where
  directory found hfound := by
    rw [entry_moved_batch (hapart _ (List.prefix_refl _)) (Nat.le_succ _)] at hfound
    exact h.directory found hfound
  plain path hpath := by
    by_cases htarget : transactionCleanupTrashDir ++ [batch] ++ [name] <+: path
    · rcases htarget with ⟨rest, rfl⟩
      rw [entry_move_target]
      rcases rest with _ | ⟨child, rest⟩
      · rw [List.append_nil, hpayload.1]
        exact ⟨nofun, nofun⟩
      · apply hpayload.2
        apply below_of_child
        exact ⟨rest, by rw [List.append_assoc, List.singleton_append]⟩
    · rw [entry_move_of_not (hapart path hpath.1) htarget]
      exact h.plain path hpath
  children child found hfound := by
    rw [entry_moved_batch (hapart _ (List.prefix_append _ _)) (by simp)] at hfound
    exact h.children child found hfound

/-- A transaction without a rescue goes as a whole. -/
theorem bundle_moved_journal {id : String} (hfree : files.Free (recoveryRescuesDir ++ [id])) :
    (files.move (journalsDir ++ [id])
        (transactionCleanupTrashDir ++ [batch] ++ [name])).Free (journalsDir ++ [id]) ∧
      (files.move (journalsDir ++ [id])
        (transactionCleanupTrashDir ++ [batch] ++ [name])).Free (recoveryRescuesDir ++ [id]) := by
  constructor
  · rintro path ⟨rest, rfl⟩
    rw [List.append_assoc]
    exact entry_moved_source (bundle_apart id rest).1 (journal_prefix_iff.mpr rfl)
  · intro path hpath
    rw [entry_moved_outside]
    · exact hfree path hpath
    · rcases hpath with ⟨rest, rfl⟩
      simp [transactionCleanupTrashDir, recoveryRescuesDir]
    · rcases hpath with ⟨rest, rfl⟩
      simp [journalsDir, recoveryRescuesDir]

/-- The rescue goes first. -/
theorem BundleKept.moved_rescue {id : String} (h : BundleKept start files id) :
    BundleKept start (files.move (recoveryRescuesDir ++ [id])
      (transactionCleanupTrashDir ++ [batch] ++ [name])) id := by
  have hjournal : ∀ path, journalsDir ++ [id] <+: path →
      (files.move (recoveryRescuesDir ++ [id])
        (transactionCleanupTrashDir ++ [batch] ++ [name])).entry path = files.entry path := by
    rintro path ⟨rest, rfl⟩
    rw [List.append_assoc]
    apply entry_moved_outside (bundle_apart id rest).1
    simp [journalsDir, recoveryRescuesDir]
  have hrescue : (files.move (recoveryRescuesDir ++ [id])
      (transactionCleanupTrashDir ++ [batch] ++ [name])).Free (recoveryRescuesDir ++ [id]) := by
    rintro path ⟨rest, rfl⟩
    rw [List.append_assoc]
    exact entry_moved_source (bundle_apart id rest).2 (rescue_prefix_iff.mpr rfl)
  rcases h with ⟨hsame, -⟩ | ⟨hnone, -⟩
  · exact .inl ⟨fun path hpath => (hjournal path hpath).trans (hsame path hpath), .inr hrescue⟩
  · exact .inr ⟨fun path hpath => (hjournal path hpath).trans (hnone path hpath), hrescue⟩

/-- The other transactions stay. -/
theorem BundleKept.moved_other {id other : String} (h : BundleKept start files other)
    (hsource : source = journalsDir ++ [id] ∨ source = recoveryRescuesDir ++ [id])
    (hother : other ≠ id) :
    BundleKept start (files.move source (transactionCleanupTrashDir ++ [batch] ++ [name]))
      other := by
  apply h.congr
  · intro rest
    apply entry_moved_outside (bundle_apart other rest).1
    rcases hsource with rfl | rfl
    · rw [journal_prefix_iff]
      exact hother.symm
    · simp [journalsDir, recoveryRescuesDir]
  · intro rest
    apply entry_moved_outside (bundle_apart other rest).2
    rcases hsource with rfl | rfl
    · simp [journalsDir, recoveryRescuesDir]
    · rw [rescue_prefix_iff]
      exact hother.symm

end Moved

/-! What is left is as it was. -/

namespace CleanupState

theorem refl (h : CleanupReady reader root start) : CleanupState reader root start start where
  closed := h.closed
  trash := h.trash
  weight _ _ := le_rfl
  frame _ _ := rfl
  bundle _ _ := .inl ⟨fun _ _ => rfl, .inl fun _ _ => rfl⟩

variable (h : CleanupState reader root start files)
include h

/-- A transaction that is there is all there. -/
theorem entry_journal {id : String} (rest : Path)
    (hid : files.entry (journalsDir ++ [id]) ≠ none) :
    files.entry (journalsDir ++ id :: rest) = start.entry (journalsDir ++ id :: rest) := by
  by_cases hfinished : Finished reader root start id
  · rcases h.bundle id hfinished with ⟨hsame, -⟩ | ⟨hgone, -⟩
    · exact hsame _ (journal_prefix_iff.mpr rfl)
    · exact absurd (hgone _ (List.prefix_refl _)) hid
  · exact h.frame _ (untouched_journal hfinished)

theorem journalAt_iff {id : String} (hid : files.entry (journalsDir ++ [id]) ≠ none)
    {journal : TransactionJournal} :
    JournalAt reader root files id journal ↔ JournalAt reader root start id journal := by
  rw [JournalAt, JournalAt, h.entry_journal [] hid, h.entry_journal ["journal.json"] hid]

/-- The finished transactions are those from before that are still there. -/
theorem finished_iff {id : String} :
    Finished reader root files id ↔
      Finished reader root start id ∧ files.entry (journalsDir ++ [id]) ≠ none := by
  constructor
  · rintro ⟨journal, hjournal, hterminal⟩
    have hid : files.entry (journalsDir ++ [id]) ≠ none := by
      rw [hjournal.1]
      exact nofun
    exact ⟨⟨journal, (h.journalAt_iff hid).mp hjournal, hterminal⟩, hid⟩
  · rintro ⟨⟨journal, hjournal, hterminal⟩, hid⟩
    exact ⟨journal, (h.journalAt_iff hid).mpr hjournal, hterminal⟩

/-- The bundle of a transaction that is there. -/
theorem bundle_of_entry {id : String} (hfinished : Finished reader root start id)
    (hid : files.entry (journalsDir ++ [id]) ≠ none) :
    Same start files (journalsDir ++ [id]) ∧
      (Same start files (recoveryRescuesDir ++ [id]) ∨
        files.Free (recoveryRescuesDir ++ [id])) := by
  rcases h.bundle id hfinished with hkept | ⟨hgone, -⟩
  · exact hkept
  · exact absurd (hgone _ (List.prefix_refl _)) hid

theorem entry_layout {path : Path}
    (hpath : path ∈ layoutDirectories ∨ path ∈ optionalLayoutDirectories.map Prod.fst) :
    files.entry path = start.entry path := by
  have hfinite : (∀ path ∈ layoutDirectories ++ optionalLayoutDirectories.map Prod.fst,
      ¬ transactionCleanupTrashDir <+: path ∧
        (journalsDir <+: path → path = journalsDir) ∧
        (recoveryRescuesDir <+: path → path = recoveryRescuesDir)) := by decide
  rcases hfinite path (List.mem_append.mpr hpath) with ⟨htrash, hjournals, hrescues⟩
  apply h.frame
  apply untouched_short htrash
  · intro id hstarts
    have hbelow := below_of_child hstarts
    exact hbelow.2 (hjournals hbelow.1)
  · intro id hstarts
    have hbelow := below_of_child hstarts
    exact hbelow.2 (hrescues hbelow.1)

theorem layout_eq_ok (hlayout : validateRepositoryLayout root start = .ok ()) :
    validateRepositoryLayout root files = .ok () := by
  rw [validateRepositoryLayout, except_bind_eq_ok] at hlayout ⊢
  rcases hlayout with ⟨⟨⟩, hdirectories, hoptional⟩
  rw [forM_eq_ok_iff] at hdirectories hoptional
  refine ⟨⟨⟩, forM_eq_ok_iff.mpr fun path hpath => ?_, forM_eq_ok_iff.mpr fun optional hmem => ?_⟩
  · rw [← hdirectories path hpath, RepositoryFiles.ensureRegularDirectoryNoFollow,
      RepositoryFiles.ensureRegularDirectoryNoFollow, h.entry_layout (.inl hpath)]
  · have hvalid := hoptional optional hmem
    have hentry := h.entry_layout (.inr (List.mem_map_of_mem hmem))
    rcases optional with ⟨path, label⟩
    simp only [hentry]
    exact hvalid

/-- A repository in which a cleanup was cut short is ready for another one. -/
theorem ready (hready : CleanupReady reader root start) : CleanupReady reader root files where
  closed := h.closed
  layout := h.layout_eq_ok hready.layout
  trash := h.trash
  journals id hid := by
    have hpresent : files.entry (journalsDir ++ [id]) ≠ none := by
      rw [hid]
      exact nofun
    rw [h.entry_journal [] hpresent] at hid
    rcases hready.journals id hid with ⟨hvalid, journal, hjournal⟩
    exact ⟨hvalid, journal, (h.journalAt_iff hpresent).mpr hjournal⟩
  payload id hid := by
    rcases h.finished_iff.mp hid with ⟨hfinished, hpresent⟩
    intro path hpath
    rw [(h.bundle_of_entry hfinished hpresent).1 path hpath.1]
    exact hready.payload id hfinished path hpath
  rescue id hid := by
    rcases h.finished_iff.mp hid with ⟨hfinished, hpresent⟩
    rcases (h.bundle_of_entry hfinished hpresent).2 with hsame | hfree
    · rcases hready.rescue id hfinished with hnone | ⟨hdirectory, hplain⟩
      · left
        rw [hsame _ (List.prefix_refl _), hnone]
      · right
        refine ⟨(hsame _ (List.prefix_refl _)).trans hdirectory, fun path hpath => ?_⟩
        rw [hsame path hpath.1]
        exact hplain path hpath
    · exact .inl (hfree _ (List.prefix_refl _))
  fileCount := (h.weight _ rfl).trans_lt hready.fileCount
  fileBytes := (h.weight _ rfl).trans_lt hready.fileBytes

/-! What a cleanup writes. -/

/-- A change in the trash. -/
theorem changed (hchange : ChangedBelow transactionCleanupTrashDir files after) :
    CleanupState reader root start after where
  closed := hchange.closed
  trash := {
    directory := fun found hfound => h.trash.directory found (by
      rw [← hchange.outside _ fun hself => hself.2 rfl, hfound])
    plain := hchange.plain
    children := fun name found hfound => by
      rcases hchange.children name found hfound with ⟨other, hother⟩
      exact h.trash.children other found hother }
  weight size hsize := (hchange.weight size).trans (h.weight size hsize)
  frame path hpath :=
    (hchange.outside path fun hbelow => hpath.1 hbelow.1).trans (h.frame path hpath)
  bundle id hid := BundleKept.congr (h.bundle id hid)
    (fun rest => hchange.outside _ fun hbelow => (bundle_apart id rest).1 hbelow.1)
    fun rest => hchange.outside _ fun hbelow => (bundle_apart id rest).2 hbelow.1

/-- A new directory, which is the trash or in it. -/
theorem put_directory {parent : Path} {name : String}
    (hparent : files.entry parent = some .directory)
    (htrash : transactionCleanupTrashDir <+: parent ++ [name])
    (hfree : files.entry (parent ++ [name]) = none) :
    CleanupState reader root start (files.put (parent ++ [name]) .directory) where
  closed := h.closed.put_directory hparent
  trash := {
    directory := fun found hfound => by
      by_cases hself : transactionCleanupTrashDir = parent ++ [name]
      · rw [hself, entry_put_self] at hfound
        exact (Option.some.inj hfound).symm
      · rw [entry_put_of_ne hself] at hfound
        exact h.trash.directory found hfound
    plain := fun path hpath => by
      by_cases hself : path = parent ++ [name]
      · rw [hself, entry_put_self]
        exact ⟨nofun, nofun⟩
      · rw [entry_put_of_ne hself]
        exact h.trash.plain path hpath
    children := fun child found hfound => by
      by_cases hself : transactionCleanupTrashDir ++ [child] = parent ++ [name]
      · rw [hself, entry_put_self] at hfound
        exact (Option.some.inj hfound).symm
      · rw [entry_put_of_ne hself] at hfound
        exact h.trash.children child found hfound }
  weight size hsize := by
    rw [weight_put_directory hsize hfree]
    exact h.weight size hsize
  frame path hpath := by
    have hne : path ≠ parent ++ [name] := by
      rintro rfl
      exact hpath.1 htrash
    rw [entry_put_of_ne hne]
    exact h.frame path hpath
  bundle id hid := BundleKept.congr (h.bundle id hid)
    (fun rest => entry_put_of_ne fun hself => (bundle_apart id rest).1 (hself ▸ htrash))
    fun rest => entry_put_of_ne fun hself => (bundle_apart id rest).2 (hself ▸ htrash)

/-- The rescue of a finished transaction, or then the transaction, moves into a batch. -/
theorem moved {id batch name : String} {source : Path} (hid : Finished reader root start id)
    (hsource : source = journalsDir ++ [id] ∧ files.Free (recoveryRescuesDir ++ [id]) ∨
      source = recoveryRescuesDir ++ [id]) (hpayload : Payload files source)
    (hbatch : files.entry (transactionCleanupTrashDir ++ [batch]) = some .directory) :
    CleanupState reader root start
      (files.move source (transactionCleanupTrashDir ++ [batch] ++ [name])) := by
  have hbundle : source = journalsDir ++ [id] ∨ source = recoveryRescuesDir ++ [id] :=
    hsource.imp_left And.left
  have hapart := bundle_not_start hbundle
  constructor
  case closed => exact h.closed.move hbatch (hapart _ (List.prefix_append _ _))
  case trash => exact h.trash.moved hapart hpayload
  case weight => exact fun size hsize => (weight_move_le _ _).trans (h.weight size hsize)
  case frame =>
    intro path hpath
    have hpart : ¬ source <+: path := by
      rcases hbundle with rfl | rfl
      · exact (hpath.2 id hid).1
      · exact (hpath.2 id hid).2
    rw [entry_moved_outside hpath.1 hpart]
    exact h.frame path hpath
  case bundle =>
    intro other hother
    by_cases hself : other = id
    · rw [hself]
      rcases hsource with ⟨rfl, hfree⟩ | rfl
      · exact .inr (bundle_moved_journal hfree)
      · exact (h.bundle id hid).moved_rescue
    · exact (h.bundle other hother).moved_other hbundle hself

end CleanupState

end CheckPo
