/-
Runs of the cleanup of transactions.  Wherever attempts are cut short, the unfinished
transactions are untouched and the same transactions are pending; an attempt that is not cut
short leaves no finished transaction, none of their rescues and nothing in the trash.
-/
import CheckPo.CleanupMoves
import CheckPo.CompactJournal

namespace CheckPo

open FileTree

section Runs

variable {reader : JournalReader} {blake3 : Bytes → Digest32} {root : String}
variable {order : LinearOrder String} {fingerprint : RepositoryFiles → Path → String}
variable {projectId : ProjectId} {uuid : RepositoryFiles → Path → Nat → String}
variable {start files : RepositoryFiles}

/-! Emptying the trash. -/

/-- No finished transaction is there, and `rest` is what is in the trash. -/
structure SweepState (reader : JournalReader) (root : String) (start : RepositoryFiles)
    (rest : List String) (files : RepositoryFiles) : Prop where
  state : CleanupState reader root start files
  none_left : ∀ id, Finished reader root start id → files.entry (journalsDir ++ [id]) = none
  nodup : rest.Nodup
  children : ∀ name, files.entry (transactionCleanupTrashDir ++ [name]) ≠ none ↔ name ∈ rest

theorem removeTrash_triple (huuid : UnusedIds uuid) {name : String} {rest : List String} :
    CrashTriple (SweepState reader root start (name :: rest))
      (removeRepoTreeAnchored root uuid order (transactionCleanupTrashDir ++ [name]))
      (fun _ => SweepState reader root start rest) (fun _ _ => False)
      (CleanupState reader root start) := by
  refine CrashTriple.of_state fun files h => ?_
  rcases List.nodup_cons.mp h.nodup with ⟨hnot, hnodup⟩
  have hentry := (h.children name).mpr List.mem_cons_self
  rcases Option.ne_none_iff_exists'.mp hentry with ⟨found, hfound⟩
  rw [h.state.trash.children name found hfound] at hfound
  have htrash := h.state.closed _ _ hentry
  have hremove := @removeRepoTree_triple root uuid order huuid files transactionCleanupTrashDir name
    h.state.closed h.state.trash.plain htrash hfound
  apply hremove.weaken (fun _ heq => heq)
  · rintro ⟨⟩ state rfl
    constructor
    case state => exact h.state.changed (.erase_child h.state.closed h.state.trash.plain name)
    case none_left =>
      intro id hid
      rw [entry_erase_of_not (by simp [transactionCleanupTrashDir, journalsDir])]
      exact h.none_left id hid
    case nodup => exact hnodup
    case children =>
      intro child
      by_cases heq : child = name
      · rw [heq, entry_erase_below (List.prefix_refl _)]
        exact ⟨fun hne => absurd rfl hne, fun hmem => absurd hmem hnot⟩
      · have hapart : ¬ transactionCleanupTrashDir ++ [name] <+:
            transactionCleanupTrashDir ++ [child] := by
          intro hstarts
          rw [List.prefix_append_right_inj, List.cons_prefix_cons] at hstarts
          exact heq hstarts.1.symm
        rw [entry_erase_of_not hapart, h.children, List.mem_cons]
        exact ⟨fun hmem => hmem.resolve_left heq, .inr⟩
  · exact fun _ _ hfail => hfail
  · exact fun state hchange => h.state.changed hchange

/-! One cleanup. -/

/-- What an uninterrupted cleanup leaves of a repository. -/
structure Cleaned (reader : JournalReader) (root : String) (start files : RepositoryFiles) :
    Prop where
  none_finished : ∀ id, ¬ Finished reader root files id
  no_rescue : ∀ id, Finished reader root start id → files.Free (recoveryRescuesDir ++ [id])
  empty_trash : ∀ name, files.entry (transactionCleanupTrashDir ++ [name]) = none

theorem SweepState.cleaned (h : SweepState reader root start [] files) :
    Cleaned reader root start files where
  none_finished id hid := by
    rcases h.state.finished_iff.mp hid with ⟨hfinished, hentry⟩
    exact hentry (h.none_left id hfinished)
  no_rescue id hid := by
    rcases h.state.bundle id hid with ⟨hsame, -⟩ | ⟨-, hfree⟩
    · have hentry := hsame _ (List.prefix_refl _)
      rw [h.none_left id hid] at hentry
      rcases hid with ⟨journal, ⟨hdirectory, -⟩, -⟩
      rw [hdirectory] at hentry
      cases hentry
    · exact hfree
  empty_trash name := by
    by_contra hentry
    exact absurd ((h.children name).mp hentry) List.not_mem_nil

theorem applyTransactionCleanupPlan_triple (hready : CleanupReady reader root start)
    (huuid : UnusedIds uuid) (h : CleanupState reader root start files)
    {plan : TransactionCleanupPlan} (hplan : PlanFor reader blake3 root fingerprint files plan) :
    CrashTriple (fun state => state = files)
      (applyTransactionCleanupPlan reader blake3 root order fingerprint uuid plan)
      (fun _ state => CleanupState reader root start state ∧ Cleaned reader root start state)
      (fun _ _ => False) (CleanupState reader root start) := by
  have hvalid : plan.candidates.forM (revalidateCandidate reader blake3 root fingerprint files) =
      .ok () := forM_eq_ok_iff.mpr hplan.valid
  have hmove := @moveActiveRoots_triple reader root start files uuid hready huuid h _ hplan.active
    hplan.activeNodup
  have hrest : CrashTriple (fun state => state = files) (do
        let batch ← moveActiveRoots root uuid (candidateIds .active plan.candidates)
        (candidateIds .trash plan.candidates ++ batch).forM fun name =>
          removeRepoTreeAnchored root uuid order (transactionCleanupTrashDir ++ [name])
        return (⟨plan.directoryCount, plan.totalBytes⟩ : TransactionCleanupResult))
      (fun _ state => CleanupState reader root start state ∧ Cleaned reader root start state)
      (fun _ _ => False) (CleanupState reader root start) := by
    refine hmove.bind fun batches => ?_
    have hsweep := @CrashTriple.forM _ _ _ _ _ (SweepState reader root start) _
      (fun name rest => @removeTrash_triple reader root order uuid start huuid name rest)
      (candidateIds .trash plan.candidates ++ batches)
    refine CrashTriple.bind (hsweep.weaken (fun state hmoved => ?_) (fun _ _ h => h)
      (fun _ _ h => h) fun _ h => h) fun _ => CrashTriple.pure fun state hswept =>
        ⟨hswept.state, hswept.cleaned⟩
    refine ⟨hmoved.state, hmoved.none_left, ?_, fun name => ?_⟩
    · rw [List.nodup_append']
      refine ⟨hplan.trashNodup, hmoved.nodup, fun name hname hbatch => ?_⟩
      exact (hplan.trash name).mp hname (hmoved.fresh name hbatch)
    · rw [hmoved.children, List.mem_append, hplan.trash]
  rintro state rfl
  rw [Durable.final, applyTransactionCleanupPlan, Durable.inspect_bind_run, hvalid]
  exact hrest state rfl

/-! Attempts. -/

/-- A call of the cleanup, with the names that it makes up. -/
structure CleanupAttempt where
  uuid : RepositoryFiles → Path → Nat → String
  expectedPlan : TransactionCleanupPlan
  yes : Bool

def CleanupAttempt.run (reader : JournalReader) (blake3 : Bytes → Digest32) (root : String)
    (order : LinearOrder String) (fingerprint : RepositoryFiles → Path → String)
    (projectId : ProjectId) (attempt : CleanupAttempt) : RepositoryM TransactionCleanupResult :=
  cleanupJournalsWithExpectedPlan reader blake3 root order fingerprint projectId attempt.uuid
    attempt.expectedPlan attempt.yes

/-- A confirmed attempt with the current plan carries it out. -/
theorem cleanupJournals_run {plan : TransactionCleanupPlan}
    (hplan : transactionCleanupPlan reader blake3 root order fingerprint projectId files = .ok plan)
    (hschema : plan.schemaVersion = transactionCleanupPlanSchemaVersion) :
    (cleanupJournalsWithExpectedPlan reader blake3 root order fingerprint projectId uuid plan
      true).run files =
        (applyTransactionCleanupPlan reader blake3 root order fingerprint uuid plan).run files := by
  rw [cleanupJournalsWithExpectedPlan, if_neg nofun, if_neg (not_not.mpr hschema),
    Durable.inspect_bind_run, hplan]
  dsimp only
  rw [if_neg (not_not.mpr rfl)]

/-- An attempt passes through the states of its moves. -/
theorem mem_cleanupJournals_run {plan : TransactionCleanupPlan}
    (hplan : transactionCleanupPlan reader blake3 root order fingerprint projectId files = .ok plan)
    (hfor : PlanFor reader blake3 root fingerprint files plan) {after : RepositoryFiles}
    (hafter : after ∈ ((moveActiveRoots root uuid
      (candidateIds .active plan.candidates)).run files).1) :
    after ∈ ((cleanupJournalsWithExpectedPlan reader blake3 root order fingerprint projectId uuid
      plan true).run files).1 := by
  have hvalid : plan.candidates.forM (revalidateCandidate reader blake3 root fingerprint files) =
      .ok () := forM_eq_ok_iff.mpr hfor.valid
  rw [cleanupJournals_run hplan hfor.schemaVersion, applyTransactionCleanupPlan,
    Durable.inspect_bind_run, hvalid]
  exact Durable.mem_bind_run hafter

theorem cleanupJournals_writes (hready : CleanupReady reader root start)
    (huuid : UnusedIds uuid) (h : CleanupState reader root start files)
    (expectedPlan : TransactionCleanupPlan) (yes : Bool) :
    ∀ after ∈ ((cleanupJournalsWithExpectedPlan reader blake3 root order fingerprint projectId uuid
      expectedPlan yes).run files).1, CleanupState reader root start after := by
  intro after hafter
  rw [cleanupJournalsWithExpectedPlan] at hafter
  by_cases hyes : yes = false
  · rw [if_pos hyes] at hafter
    exact absurd hafter List.not_mem_nil
  by_cases hschema : expectedPlan.schemaVersion ≠ transactionCleanupPlanSchemaVersion
  · rw [if_neg hyes, if_pos hschema] at hafter
    exact absurd hafter List.not_mem_nil
  rcases @transactionCleanupPlan_eq_ok reader blake3 root fingerprint files (h.ready hready) order
    projectId with ⟨plan, hplan, hfor⟩
  rw [if_neg hyes, if_neg hschema, Durable.inspect_bind_run, hplan] at hafter
  dsimp only at hafter
  by_cases hexpected : plan ≠ expectedPlan
  · rw [if_pos hexpected] at hafter
    exact absurd hafter List.not_mem_nil
  rw [if_neg hexpected] at hafter
  exact (applyTransactionCleanupPlan_triple hready huuid h hfor files rfl).1 after hafter

theorem cleanupAttempts_keep (hready : CleanupReady reader root start)
    (hreached : Reached (CleanupAttempt.run reader blake3 root order fingerprint projectId)
      (fun attempt _ => UnusedIds attempt.uuid) (fun _ => True) start files) :
    CleanupState reader root start files :=
  Reached.of_writes (CleanupState.refl hready) (fun attempt _ hstate huuid =>
    cleanupJournals_writes hready huuid hstate attempt.expectedPlan attempt.yes) hreached

/-- An attempt that is cut short while it moves transactions to the trash. -/
theorem cleanupAttempt_cut {plan : TransactionCleanupPlan} (huuid : UnusedIds uuid)
    (hplan : transactionCleanupPlan reader blake3 root order fingerprint projectId start = .ok plan)
    (hfor : PlanFor reader blake3 root fingerprint start plan)
    (hmoves : files ∈ ((moveActiveRoots root uuid
      (candidateIds .active plan.candidates)).run start).1) :
    Reached (CleanupAttempt.run reader blake3 root order fingerprint projectId)
      (fun attempt _ => UnusedIds attempt.uuid) (fun _ => True) start files := by
  have hattempt : files ∈ ((CleanupAttempt.run reader blake3 root order fingerprint projectId
      ⟨uuid, plan, true⟩).run start).1 := mem_cleanupJournals_run hplan hfor hmoves
  exact .crashed .start huuid hattempt trivial

/-- Wherever attempts to clean up are cut short, no unfinished transaction and no rescue of
one is changed, the same transactions are pending, and the next attempt that is not cut short
succeeds and leaves no finished transaction, none of their rescues and an empty trash. -/
theorem transactionCleanup_resumes (hready : CleanupReady reader root start)
    (hreached : Reached (CleanupAttempt.run reader blake3 root order fingerprint projectId)
      (fun attempt _ => UnusedIds attempt.uuid) (fun _ => True) start files) :
    (∀ id, ¬ Finished reader root start id →
      Same start files (journalsDir ++ [id]) ∧ Same start files (recoveryRescuesDir ++ [id])) ∧
    pendingTransactionsOf reader root order files =
      pendingTransactionsOf reader root order start ∧
    ∀ uuid, UnusedIds uuid → ∃ plan result,
      transactionCleanupPlan reader blake3 root order fingerprint projectId files = .ok plan ∧
      ((cleanupJournalsWithExpectedPlan reader blake3 root order fingerprint projectId uuid plan
        true).run files).2 = .ok result ∧
      Cleaned reader root start ((cleanupJournalsWithExpectedPlan reader blake3 root order
        fingerprint projectId uuid plan true).final files) := by
  have hstate := cleanupAttempts_keep hready hreached
  refine ⟨fun id hid => ⟨?_, ?_⟩, pendingTransactionsOf_eq order hready hstate, fun uuid huuid => ?_⟩
  · rintro path ⟨rest, rfl⟩
    rw [List.append_assoc]
    exact hstate.frame _ (untouched_journal hid)
  · rintro path ⟨rest, rfl⟩
    rw [List.append_assoc]
    exact hstate.frame _ (untouched_rescue hid)
  · rcases @transactionCleanupPlan_eq_ok reader blake3 root fingerprint files (hstate.ready hready)
      order projectId with ⟨plan, hplan, hfor⟩
    have hrun := @cleanupJournals_run reader blake3 root order fingerprint projectId uuid files plan
      hplan hfor.schemaVersion
    rcases (@applyTransactionCleanupPlan_triple reader blake3 root order fingerprint uuid start files
      hready huuid hstate plan hfor).returns rfl with ⟨result, hresult, -, hcleaned⟩
    refine ⟨plan, result, hplan, ?_, ?_⟩
    · rw [hrun, hresult]
    · rw [Durable.final, hrun]
      exact hcleaned

end Runs

namespace Sample

/-! A repository with a committed transaction and its rescue, and with an unfinished one. -/

def committedJournal : TransactionJournal where
  schemaVersion := transactionJournalSchemaVersion
  transactionId := crowdTransaction
  state := .committed
  checkpointId := wayJournal.checkpointId
  kind := .restore
  operations := []
  directoriesToRemove := []
  directoriesToCreate := []
  createdAtUtc := "1970-01-01T00:00:03Z"
  updatedAtUtc := "1970-01-01T00:00:04Z"

def unfinishedTransaction : String := "fedcba9876543210fedcba9876543210"

def unfinishedJournal : TransactionJournal :=
  { committedJournal with transactionId := unfinishedTransaction, state := .applying }

def cleanupEntries : List (Path × TreeEntry Bytes) :=
  layoutDirectories.map (fun path => (path, .directory)) ++
    [(recoveryRescuesDir, .directory), (journalsDir ++ [crowdTransaction], .directory),
      (journalsDir ++ [crowdTransaction, "journal.json"],
        .file (jsonBytes committedJournal.toJson)),
      (journalsDir ++ [unfinishedTransaction], .directory),
      (journalsDir ++ [unfinishedTransaction, "journal.json"],
        .file (jsonBytes unfinishedJournal.toJson)),
      (recoveryRescuesDir ++ [crowdTransaction], .directory),
      (recoveryRescuesDir ++ [crowdTransaction, "active.json"], .file [])]

def cleanupFiles : RepositoryFiles := FileTree.ofList cleanupEntries

theorem mem_of_cleanupFiles {path : Path} {found : TreeEntry Bytes}
    (h : cleanupFiles.entry path = some found) : (path, found) ∈ cleanupEntries := by
  rcases List.lookup_eq_some_iff.mp h with ⟨before, after, heq, -⟩
  rw [heq]
  exact List.mem_append_right _ List.mem_cons_self

theorem closed_cleanupFiles : cleanupFiles.Closed := by
  have hparents : ∀ entry ∈ cleanupEntries, entry.1 ≠ [] →
      cleanupEntries.lookup entry.1.dropLast = some .directory := by decide +kernel
  intro path name hentry
  rcases Option.ne_none_iff_exists'.mp hentry with ⟨found, hfound⟩
  have hparent := hparents _ (mem_of_cleanupFiles hfound) (by simp)
  rw [List.dropLast_concat] at hparent
  exact hparent

/-- There are three files. -/
theorem cleanupEntries_cases {entry : Path × TreeEntry Bytes} (h : entry ∈ cleanupEntries) :
    entry.2 = .directory ∨
      entry = (journalsDir ++ [crowdTransaction, "journal.json"],
        .file (jsonBytes committedJournal.toJson)) ∨
      entry = (journalsDir ++ [unfinishedTransaction, "journal.json"],
        .file (jsonBytes unfinishedJournal.toJson)) ∨
      entry = (recoveryRescuesDir ++ [crowdTransaction, "active.json"], .file []) := by
  rcases List.mem_append.mp h with hlayout | hrest
  · rcases List.mem_map.mp hlayout with ⟨path, -, rfl⟩
    exact .inl rfl
  · simp only [List.mem_cons, List.not_mem_nil, or_false] at hrest
    rcases hrest with rfl | rfl | rfl | rfl | rfl | rfl | rfl
    · exact .inl rfl
    · exact .inl rfl
    · exact .inr (.inl rfl)
    · exact .inl rfl
    · exact .inr (.inr (.inl rfl))
    · exact .inl rfl
    · exact .inr (.inr (.inr rfl))

theorem plain_cleanupFiles (top : Path) : cleanupFiles.PlainBelow top := by
  intro path _
  constructor
  · intro hentry
    rcases cleanupEntries_cases (mem_of_cleanupFiles hentry) with h | h | h | h
    · cases h
    · cases (Prod.mk.inj h).2
    · cases (Prod.mk.inj h).2
    · cases (Prod.mk.inj h).2
  · intro hentry
    rcases cleanupEntries_cases (mem_of_cleanupFiles hentry) with h | h | h | h
    · cases h
    · cases (Prod.mk.inj h).2
    · cases (Prod.mk.inj h).2
    · cases (Prod.mk.inj h).2

def cleanupJournals : List TransactionJournal := [committedJournal, unfinishedJournal]

theorem journalBytes_cleanupJournals : ∀ journal ∈ cleanupJournals,
    journalBytes journal < 1000 := by
  decide +kernel

theorem representable_cleanupJournals : ∀ journal ∈ cleanupJournals, journal.Representable := by
  intro journal hjournal
  rcases List.mem_pair.mp hjournal with rfl | rfl
  · exact ⟨by decide, nofun⟩
  · exact ⟨by decide, nofun⟩

theorem journalBytes_cleanupJournals_le {journal : TransactionJournal}
    (h : journal ∈ cleanupJournals) : journalBytes journal ≤ maxTransactionJournalBytes :=
  (journalBytes_cleanupJournals journal h).le.trans (by norm_num [maxTransactionJournalBytes])

theorem schemaVersion_cleanupJournals {journal : TransactionJournal}
    (h : journal ∈ cleanupJournals) :
    journal.schemaVersion = transactionJournalSchemaVersion := by
  rcases List.mem_pair.mp h with rfl | rfl <;> rfl

theorem journalAt_cleanupFiles {journal : TransactionJournal} (h : journal ∈ cleanupJournals) :
    JournalAt compactJournalReader "repo" cleanupFiles journal.transactionId journal := by
  have hentries : ∀ journal ∈ cleanupJournals,
      cleanupFiles.entry (journalsDir ++ [journal.transactionId]) = some .directory ∧
        cleanupFiles.entry (journalsDir ++ [journal.transactionId, "journal.json"]) =
          some (.file (jsonBytes journal.toJson)) := by
    intro journal hjournal
    rcases List.mem_pair.mp hjournal with rfl | rfl
    · exact ⟨rfl, rfl⟩
    · exact ⟨rfl, rfl⟩
  rcases hentries journal h with ⟨hdirectory, hfile⟩
  refine ⟨hdirectory, _, hfile, ?_⟩
  have hread := (readTransactionJournal_toVec_iff compactJournalReader_lawful
    (displayPath "repo" (journalsDir ++ [journal.transactionId, "journal.json"]))
    (representable_cleanupJournals journal h) (schemaVersion_cleanupJournals h)).mpr
      (journalBytes_cleanupJournals_le h)
  rw [identifiedJournal, hread]
  rcases List.mem_pair.mp h with rfl | rfl <;> rfl

theorem weight_cleanupFiles_lt {size : TreeEntry Bytes → Nat} (hdirectory : size .directory ≤ 1000)
    (hjournals : ∀ journal ∈ cleanupJournals, size (.file (jsonBytes journal.toJson)) ≤ 1000)
    (hrescue : size (.file []) ≤ 1000) : cleanupFiles.weight size < 2 ^ 64 := by
  have hentry : ∀ path ∈ cleanupFiles.paths, cleanupFiles.sizeAt size path ≤ 1000 := by
    intro path hpath
    rcases Option.ne_none_iff_exists'.mp ((cleanupFiles.mem_paths path).mp hpath) with
      ⟨found, hfound⟩
    rw [FileTree.sizeAt, hfound]
    rcases cleanupEntries_cases (mem_of_cleanupFiles hfound) with h | h | h | h
    · exact (congrArg size h).trans_le hdirectory
    · exact (congrArg size (Prod.mk.inj h).2).trans_le (hjournals _ List.mem_cons_self)
    · exact (congrArg size (Prod.mk.inj h).2).trans_le
        (hjournals _ (List.mem_cons_of_mem _ List.mem_cons_self))
    · exact (congrArg size (Prod.mk.inj h).2).trans_le hrescue
  have hcard : cleanupFiles.paths.card ≤ 28 := List.toFinset_card_le _
  calc cleanupFiles.weight size
      ≤ cleanupFiles.paths.card • 1000 := Finset.sum_le_card_nsmul _ _ _ hentry
    _ ≤ 28 • 1000 := Nat.mul_le_mul_right _ hcard
    _ < 2 ^ 64 := by norm_num

theorem cleanupFiles_ready : CleanupReady compactJournalReader "repo" cleanupFiles := by
  have hnames : ∀ entry ∈ cleanupEntries, entry.1.dropLast = journalsDir →
      ∃ journal ∈ cleanupJournals, entry.1 = journalsDir ++ [journal.transactionId] := by
    decide +kernel
  have hids : ∀ journal ∈ cleanupJournals,
      validateTransactionId journal.transactionId = .ok () := by
    decide +kernel
  have hrescues : ∀ entry ∈ cleanupEntries, entry.1.dropLast = recoveryRescuesDir →
      entry.2 = .directory := by
    intro entry hentry hparent
    rcases cleanupEntries_cases hentry with h | rfl | rfl | rfl
    · exact h
    · exact absurd hparent (by decide +kernel)
    · exact absurd hparent (by decide +kernel)
    · exact absurd hparent (by decide +kernel)
  have htrash : ∀ entry ∈ cleanupEntries, ¬ transactionCleanupTrashDir <+: entry.1 := by
    decide +kernel
  have hfree : cleanupFiles.Free transactionCleanupTrashDir := by
    intro path hpath
    by_contra hentry
    rcases Option.ne_none_iff_exists'.mp hentry with ⟨found, hfound⟩
    exact htrash _ (mem_of_cleanupFiles hfound) hpath
  constructor
  case closed => exact closed_cleanupFiles
  case layout => decide +kernel
  case trash =>
    refine ⟨fun found hfound => ?_, plain_cleanupFiles _, fun name found hfound => ?_⟩
    · rw [hfree _ (List.prefix_refl _)] at hfound
      cases hfound
    · rw [hfree _ (List.prefix_append _ _)] at hfound
      cases hfound
  case journals =>
    intro id hid
    rcases hnames _ (mem_of_cleanupFiles hid) (List.dropLast_concat ..) with
      ⟨journal, hjournal, heq⟩
    rw [(List.cons.inj (List.append_cancel_left heq)).1]
    exact ⟨hids journal hjournal, journal, journalAt_cleanupFiles hjournal⟩
  case payload => exact fun id _ => plain_cleanupFiles _
  case rescue =>
    intro id _
    rcases hentry : cleanupFiles.entry (recoveryRescuesDir ++ [id]) with _ | found
    · exact .inl rfl
    · right
      have hdirectory := hrescues _ (mem_of_cleanupFiles hentry) (List.dropLast_concat ..)
      dsimp only at hdirectory
      rw [hdirectory] at hentry
      exact ⟨hentry, plain_cleanupFiles _⟩
  case fileCount =>
    apply weight_cleanupFiles_lt
    · exact Nat.zero_le _
    · exact fun _ _ => Nat.le_of_ble_eq_true rfl
    · exact Nat.le_of_ble_eq_true rfl
  case fileBytes =>
    apply weight_cleanupFiles_lt
    · exact Nat.zero_le _
    · exact fun journal hjournal =>
        (length_journal journal).trans_le (journalBytes_cleanupJournals journal hjournal).le
    · exact Nat.zero_le _

/-! An attempt that is cut short. -/

/-- The rescue is in the trash and its transaction is not. -/
def cutCleanup : RepositoryFiles :=
  ((moveActiveRoots "repo" lengthyName [crowdTransaction]).run cleanupFiles).1.getD 2 cleanupFiles

theorem names_cleanupFiles : cleanupFiles.names (inferInstance : LinearOrder String) journalsDir =
    cleanupJournals.map TransactionJournal.transactionId := by
  have hnames : cleanupFiles.childNames journalsDir =
      (cleanupJournals.map TransactionJournal.transactionId).toFinset := by decide +kernel
  rw [FileTree.names, hnames]
  exact (List.toFinset_sort _ (by decide)).mpr (by decide)

theorem finished_cleanupFiles {id : String} :
    Finished compactJournalReader "repo" cleanupFiles id ↔ id = crowdTransaction := by
  constructor
  · rintro ⟨journal, ⟨hdirectory, bytes, hbytes, hread⟩, hterminal⟩
    have hname : id ∈ cleanupJournals.map TransactionJournal.transactionId := by
      rw [← names_cleanupFiles, mem_names, hdirectory]
      exact nofun
    rcases List.mem_map.mp hname with ⟨found, hfound, rfl⟩
    rcases journalAt_cleanupFiles hfound with ⟨-, stored, hstored, hsame⟩
    rw [hstored, Option.some.injEq, TreeEntry.file.injEq] at hbytes
    rw [hbytes, hread, Except.ok.injEq] at hsame
    subst hsame
    rcases List.mem_pair.mp hfound with rfl | rfl
    · rfl
    · cases hterminal
  · rintro rfl
    exact ⟨committedJournal, journalAt_cleanupFiles List.mem_cons_self, rfl⟩

theorem pendingTransactionsOf_cleanupFiles :
    pendingTransactionsOf compactJournalReader "repo" inferInstance cleanupFiles =
      .ok [pendingOf (displayPath "repo" journalsDir) unfinishedJournal] := by
  have hentries : transactionEntries inferInstance cleanupFiles =
      some (cleanupJournals.map transactionEntry) := by
    rw [transactionEntries, if_neg (by decide +kernel), names_cleanupFiles]
    rfl
  have hwritten := pendingTransactions_written compactJournalReader_lawful
    (displayPath "repo" journalsDir) representable_cleanupJournals
    (fun journal hjournal => schemaVersion_cleanupJournals hjournal)
    fun journal hjournal => journalBytes_cleanupJournals_le hjournal
  rw [pendingTransactionsOf, cleanupFiles_ready.layout, hentries, hwritten]
  rfl

theorem cutCleanup_reached : Reached (CleanupAttempt.run compactJournalReader lengthDigest "repo"
    inferInstance (fun _ _ => "") crowdProject) (fun attempt _ => UnusedIds attempt.uuid)
    (fun _ => True) cleanupFiles cutCleanup := by
  rcases @transactionCleanupPlan_eq_ok compactJournalReader lengthDigest "repo" (fun _ _ => "")
    cleanupFiles cleanupFiles_ready inferInstance crowdProject with ⟨plan, hplan, hfor⟩
  have hids : candidateIds .active plan.candidates = [crowdTransaction] := by
    apply List.perm_singleton.mp
    rw [List.perm_ext_iff_of_nodup hfor.activeNodup (List.nodup_singleton _)]
    intro id
    rw [hfor.active, finished_cleanupFiles, List.mem_singleton]
  have hlength : 2 < ((moveActiveRoots "repo" lengthyName [crowdTransaction]).run
      cleanupFiles).1.length := by
    decide +kernel
  have hmem : cutCleanup ∈ ((moveActiveRoots "repo" lengthyName
      (candidateIds .active plan.candidates)).run cleanupFiles).1 := by
    rw [hids, cutCleanup, List.getD_eq_getElem _ _ hlength]
    exact List.getElem_mem hlength
  exact cleanupAttempt_cut lengthyName_unused hplan hfor hmem

end Sample

/-- A cleanup is cut short when the rescue is in the trash and its transaction is not; the
unfinished transaction stays pending, and the next cleanup ends. -/
theorem transactionCleanup_resumes_committed :
    Sample.cutCleanup.entry (recoveryRescuesDir ++ [Sample.crowdTransaction]) = none ∧
      Sample.cutCleanup.entry (journalsDir ++ [Sample.crowdTransaction]) = some .directory ∧
      pendingTransactionsOf compactJournalReader "repo" inferInstance Sample.cutCleanup =
        .ok [pendingOf (displayPath "repo" journalsDir) Sample.unfinishedJournal] ∧
      ∃ plan result,
        transactionCleanupPlan compactJournalReader lengthDigest "repo" inferInstance
          (fun _ _ => "") Sample.crowdProject Sample.cutCleanup = .ok plan ∧
        ((cleanupJournalsWithExpectedPlan compactJournalReader lengthDigest "repo" inferInstance
          (fun _ _ => "") Sample.crowdProject Sample.lengthyName plan true).run
            Sample.cutCleanup).2 = .ok result ∧
        Cleaned compactJournalReader "repo" Sample.cleanupFiles
          ((cleanupJournalsWithExpectedPlan compactJournalReader lengthDigest "repo" inferInstance
            (fun _ _ => "") Sample.crowdProject Sample.lengthyName plan true).final
              Sample.cutCleanup) := by
  rcases transactionCleanup_resumes Sample.cleanupFiles_ready Sample.cutCleanup_reached with
    ⟨-, hpending, hnext⟩
  have hcut : Sample.cutCleanup.entry (recoveryRescuesDir ++ [Sample.crowdTransaction]) = none ∧
      Sample.cutCleanup.entry (journalsDir ++ [Sample.crowdTransaction]) = some .directory := by
    decide +kernel
  refine ⟨hcut.1, hcut.2, ?_, hnext Sample.lengthyName Sample.lengthyName_unused⟩
  rw [hpending, Sample.pendingTransactionsOf_cleanupFiles]

end CheckPo
